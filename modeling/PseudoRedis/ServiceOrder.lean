/-
This file is about the order in which blocked requests are served. `addto_pending` puts a
request in front of the ring and `do_hanging_jobs` walks from the front, so of the requests
that wait for a list the one that came last is visited first and takes the first entry. A
run serves its requests in the order in which they came exactly as long as no visit takes
an entry of a list that an action further back in the ring waits for.
-/

import PseudoRedis.PendingRing
import PseudoRedis.BlockingPop

namespace PseudoRedis

/-! ### Keys and entries -/

/-- The arguments of a request. -/
def Request.pieces (request : Request) : List Bytes :=
  (parseFrom .between (request.data.take request.len)).1

/-- The keys whose lists a request waits for. -/
def Request.waitsFor (request : Request) : List Bytes :=
  match findCommand request.command with
  | none => []
  | some command =>
      match command.func with
      | .blpop | .brpop => request.pieces.dropLast
      | .brpoplpush => request.pieces.dropLast.take 1
      | _ => []

/-- The key `BLPOP` or `BRPOP` finds, and the entry it takes from the list there. -/
def takesFrom (side : End) (dict : Dict Obj) (args : List Bss) : Option (Bss × Bss) :=
  match firstPresent dict args with
  | some (key, .list entries) => (listPop side entries).map fun out => (key, out.1)
  | _ => none

/-- The key whose list a blocking handler takes an entry of, and the entry. -/
def CommandFunc.takes (dict : Dict Obj) (args : List Bss) : CommandFunc → Option (Bss × Bss)
  | .blpop => takesFrom .left dict args
  | .brpop => takesFrom .right dict args
  | .brpoplpush =>
      match args with
      | [src, dst] => (movedEntry dict src dst).map fun entry => (src, entry)
      | _ => none
  | _ => none

/-- The key and the entry a visit takes for its action. -/
def Visit.takes (visit : Visit) : Option (Bss × Bss) :=
  if visit.action.expired visit.moment then none
  else
    match readRequest visit.moment.env visit.server.next visit.action.request with
    | .calls command args _ => command.func.takes visit.server.keyDict args
    | _ => none

/-! ### What a handler takes -/

/-- The handler fills the reply array with the entry, which it took from the list of the key. -/
structure Takes (dict : Dict Obj) (run : Run Obj) (key entry : Bss) : Prop where
  passed : ∃ dict' elems ret, run = leaving dict' elems ret ∧ ∃ type, ⟨some entry, type⟩ ∈ elems
  out : ∃ side entries rest, dictLookUp dict key = some (.list entries) ∧
    Taken side entries entry rest

variable {env : Env} {dict : Dict Obj} {args : List Bss} {key entry : Bss} {side : End}

theorem takesFrom_inv (taken : takesFrom side dict args = some (key, entry)) :
    key ∈ args ∧ Takes dict (blpopbrpopCommand side dict args) key entry := by
  rw [takesFrom] at taken
  split at taken
  · rename_i own entries present
    obtain ⟨⟨other, rest⟩, out, same⟩ := Option.map_eq_some_iff.mp taken
    cases same
    obtain ⟨found, inside⟩ := firstPresent_lookUp present
    refine ⟨inside, ?_, side, entries, rest, found, taken_of_listPop out⟩
    cases args with
    | nil => cases inside
    | cons first others =>
      have ran : blpopbrpopCommand side dict (first :: others) =
          leaving (putList dict key first rest) (popped first other) 0 := by
        simp only [blpopbrpopCommand, present, out]
      exact ⟨_, _, _, ran, strNi ||| needFree, List.mem_cons_of_mem _ List.mem_cons_self⟩
  · cases taken

theorem movedEntry_inv {src dst : Bss} (moved : movedEntry dict src dst = some entry) :
    Takes dict (brpoplpushCommand env dict [src, dst]) src entry := by
  rw [movedEntry] at moved
  split at moved
  · rename_i entries found
    split at moved
    · cases moved
    · rename_i other rest out
      have passes {dict' : Dict Obj} : ∃ dict'' elems ret,
          leaving dict' [⟨some other, strNi⟩] (env.fallOff 0) = leaving dict'' elems ret ∧
            ∃ type, ⟨some other, type⟩ ∈ elems :=
        ⟨_, _, _, rfl, strNi, List.mem_singleton_self _⟩
      split at moved
      · rename_i absent
        cases moved
        refine ⟨?_, .right, entries, rest, found, taken_of_listPop out⟩
        simp only [brpoplpushCommand, rpoplpush, found, out, absent]
        exact passes
      · rename_i others target
        cases moved
        refine ⟨?_, .right, entries, rest, found, taken_of_listPop out⟩
        simp only [brpoplpushCommand, rpoplpush, found, out, target]
        exact passes
      · cases moved
  · cases moved

/-- What a handler takes comes from the list of the key and goes to the reply array. -/
theorem takes_inv {func : CommandFunc} (taken : func.takes dict args = some (key, entry)) :
    Takes dict (func.run env dict args) key entry := by
  cases func with
  | blpop => exact (takesFrom_inv taken).2
  | brpop => exact (takesFrom_inv taken).2
  | brpoplpush =>
    match args, taken with
    | [src, dst], taken =>
      obtain ⟨other, moved, same⟩ := Option.map_eq_some_iff.mp taken
      cases same
      exact movedEntry_inv moved
  | _ => cases taken

/-- The arguments of a blocking handler are those of the request without the timeout. -/
theorem content_args {next : Nat} {request : Request} {command : Command} {timeout : Option Int}
    (read : readRequest env next request = .calls command args timeout)
    (blocks : command.func.blocks = true) :
    findCommand request.command = some command ∧
      args.map Bss.content = request.pieces.dropLast := by
  have called := readRequest_called read
  refine ⟨called.found, ?_⟩
  rw [readRequest, called.found] at read
  simp only at read
  split at read
  · cases read
  · rename_i all ret parsed
    split at read
    · cases read
    · rw [if_pos (called.blocks.mpr blocks)] at read
      split at read
      · cases read
      · split at read
        · cases read
        · cases read
          rw [parseArgs] at parsed
          split at parsed
          · cases parsed
          · split at parsed
            · cases parsed
            · cases parsed
              rw [List.map_dropLast, content_createArgs]
              rfl

/-- An action is served from a key its request waits for. -/
theorem Visit.takes_waitsFor {visit : Visit} (taken : visit.takes = some (key, entry)) :
    key.content ∈ visit.action.request.waitsFor := by
  rw [Visit.takes] at taken
  split at taken
  · cases taken
  · split at taken
    · rename_i command args timeout read
      have inArgs (inside : key ∈ args) (blocks : command.func.blocks = true) :
          key.content ∈ visit.action.request.pieces.dropLast := by
        rw [← (content_args read blocks).2]
        exact List.mem_map_of_mem inside
      rw [Request.waitsFor, (readRequest_called read).found]
      cases func : command.func with
      | blpop =>
        rw [func] at taken inArgs
        simp only [func]
        exact inArgs (takesFrom_inv taken).1 rfl
      | brpop =>
        rw [func] at taken inArgs
        simp only [func]
        exact inArgs (takesFrom_inv taken).1 rfl
      | brpoplpush =>
        have blocks : command.func.blocks = true := by rw [func]; rfl
        rw [func] at taken
        simp only [func]
        match args, read, taken with
        | [src, dst], read, taken =>
          obtain ⟨other, moved, same⟩ := Option.map_eq_some_iff.mp taken
          cases same
          rw [← (content_args read blocks).2]
          exact List.mem_cons_self
      | _ =>
        rw [func] at taken
        cases taken
    · cases taken

/-! ### Service in the order of arrival -/

/-- Whenever an entry is taken for a request, those that blocked earlier and wait for the same key
were answered before, or their timeout is reached. -/
def InOrder (waited : List Action) (log : List Visit) : Prop :=
  ∀ before visit after key entry, log = before ++ visit :: after →
    visit.takes = some (key, entry) →
      ∀ earlier ∈ waited, earlier.origin < visit.action.origin →
        key.content ∈ earlier.request.waitsFor →
          earlier ∈ answered before ∨ earlier.expired visit.moment

/-- No visit of a heart-beat takes an entry of a list that an action behind it in the ring waits
for, unless the timeout of that action is reached. -/
def Unrivalled (visits : List Visit) : Prop :=
  ∀ before visit after key entry, visits = before ++ visit :: after →
    visit.takes = some (key, entry) →
      ∀ behind ∈ after, key.content ∈ behind.action.request.waitsFor →
        behind.action.expired visit.moment

variable {actionHead addr : Addr} {seq : List Addr} {actions waited : List Action} {number : Nat}
  {log visits before after : List Visit} {visit : Visit} {linked linked' : Linked}
  {moment : Nat → Moment} {fuel : Nat}

theorem answered_append (first second : List Visit) :
    answered (first ++ second) = answered first ++ answered second := by
  rw [answered, dones, List.filter_append, List.map_append]
  rfl

theorem answered_sub (visits : List Visit) :
    (answered visits).Sublist (visits.map Visit.action) :=
  List.filter_sublist.map _

/-- The actions of a heart-beat are visited from the last arrival to the first one. -/
theorem Accounted.visits_order
    (accounted : Accounted actionHead linked number waited log seq actions)
    (all : (before ++ visit :: after).map Visit.action = actions) :
    (∀ other ∈ before, visit.action.origin < other.action.origin) ∧
      ∀ other ∈ after, other.action.origin < visit.action.origin := by
  have order := accounted.order.sublist accounted.sub
  rw [← all, List.pairwise_map, List.pairwise_append] at order
  obtain ⟨-, rest, across⟩ := order
  exact ⟨fun other member => across other member visit List.mem_cons_self,
    fun other member => (List.pairwise_cons.mp rest).1 other member⟩

/-- What is behind a visit in the ring came before, and is not answered yet. -/
theorem Accounted.unrivalled
    (accounted : Accounted actionHead linked number waited log seq actions)
    (all : visits.map Visit.action = actions) (whole : InOrder waited (log ++ visits)) :
    Unrivalled visits := by
  rintro before visit after key entry rfl taken behind inAfter waits
  have behindOrder := (accounted.visits_order all).2 behind inAfter
  have inside : behind.action ∈ actions :=
    all ▸ List.mem_map_of_mem (List.mem_append_right _ (List.mem_cons_of_mem _ inAfter))
  refine (whole (log ++ before) visit after key entry (List.append_assoc _ _ _).symm taken
    behind.action (accounted.sub.subset inside) behindOrder waits).resolve_left fun done => ?_
  rw [answered_append, List.mem_append] at done
  have nodup := accounted.all.nodup_iff.mpr accounted.nodup.1
  rcases done with old | new
  · exact (List.nodup_append.mp nodup).2.2 _ inside _ old rfl
  · obtain ⟨other, inBefore, same⟩ := List.mem_map.mp ((answered_sub before).subset new)
    have above := (accounted.visits_order all).1 other inBefore
    rw [same] at above
    exact absurd above (Nat.lt_asymm behindOrder)

/-- An action that came before the one of a visit is answered, or behind it in the ring. -/
theorem Accounted.answered_or_behind
    (accounted : Accounted actionHead linked number waited log seq actions)
    (all : (before ++ visit :: after).map Visit.action = actions) {earlier : Action}
    (inWaited : earlier ∈ waited) (less : earlier.origin < visit.action.origin) :
    earlier ∈ answered log ∨ ∃ behind ∈ after, behind.action = earlier := by
  rw [← accounted.all.mem_iff, List.mem_append] at inWaited
  refine inWaited.symm.imp_right fun inActions => ?_
  rw [← all] at inActions
  obtain ⟨other, inVisits, rfl⟩ := List.mem_map.mp inActions
  rcases List.mem_append.mp inVisits with inBefore | inRest
  · exact absurd ((accounted.visits_order all).1 other inBefore) (Nat.lt_asymm less)
  · rcases List.mem_cons.mp inRest with rfl | inAfter
    · exact absurd less (Nat.lt_irrefl _)
    · exact ⟨other, inAfter, rfl⟩

/-- A heart-beat keeps the order exactly if it is unrivalled. -/
theorem Accounted.inOrder_iff
    (accounted : Accounted actionHead linked number waited log seq actions)
    (inOrder : InOrder waited log) (all : visits.map Visit.action = actions) :
    InOrder waited (log ++ visits) ↔ Unrivalled visits := by
  refine ⟨accounted.unrivalled all, fun unrivalled => ?_⟩
  intro before visit after key entry split taken earlier inWaited less waits
  have inBeat (middle : List Visit) (longer : before = log ++ middle)
      (rest : visits = middle ++ visit :: after) :
      earlier ∈ answered before ∨ earlier.expired visit.moment := by
    rw [longer, answered_append, List.mem_append]
    rcases accounted.answered_or_behind (rest ▸ all) inWaited less with
      done | ⟨behind, inAfter, rfl⟩
    · exact Or.inl (Or.inl done)
    · exact Or.inr (unrivalled middle visit after key entry rest taken behind inAfter waits)
  rcases List.append_eq_append_iff.mp split with ⟨middle, longer, rest⟩ | ⟨middle, rfl, rest⟩
  · exact inBeat middle longer rest
  · cases middle with
    | nil => exact inBeat [] (by rw [List.append_nil, List.append_nil]) rest.symm
    | cons first others =>
      cases rest
      exact inOrder before visit others key entry rfl taken earlier inWaited less waits

/-- Every visit was one of an action that blocked. -/
theorem PendingRun.visited {allowed : List Visit → Prop}
    (run : PendingRun actionHead allowed linked number waited log) :
    ∀ visit ∈ log, visit.action ∈ waited := by
  induction run with
  | start init next prev none => exact fun visit member => by cases member
  | arrive before free apart ran inductionHypothesis =>
    intro visit member
    split
    · exact List.mem_cons_of_mem _ (inductionHypothesis visit member)
    · exact inductionHypothesis visit member
  | beat before fine ran inductionHypothesis =>
    intro visit member
    rcases List.mem_append.mp member with old | new
    · exact inductionHypothesis visit old
    · obtain ⟨seq, actions, accounted⟩ := before.accounted
      refine accounted.sub.subset ?_
      rw [← visits_actions accounted.pending ran]
      exact List.mem_map_of_mem new

/-- An arrival is later than what was visited before it. -/
theorem InOrder.arrive (inOrder : InOrder waited log) {action : Action}
    (last : ∀ visit ∈ log, visit.action.origin < action.origin) :
    InOrder (action :: waited) log := by
  intro before visit after key entry split taken earlier inWaited less waits
  rcases List.mem_cons.mp inWaited with rfl | old
  · have member : visit ∈ log := split ▸ List.mem_append_right _ List.mem_cons_self
    exact absurd less (Nat.lt_asymm (last visit member))
  · exact inOrder before visit after key entry split taken earlier old less waits

theorem PendingRun.inOrder (run : PendingRun actionHead Unrivalled linked number waited log) :
    InOrder waited log := by
  induction run with
  | start init next prev none =>
    intro before visit after key entry split
    exact absurd split.symm (List.append_ne_nil_of_right_ne_nil _ (List.cons_ne_nil _ _))
  | @arrive linked linked' number waited log addr moment request ret before free apart ran
      inductionHypothesis =>
    split
    · refine inductionHypothesis.arrive fun visit member => ?_
      obtain ⟨seq, actions, accounted⟩ := before.accounted
      exact accounted.below _ (before.visited visit member)
    · exact inductionHypothesis
  | beat before fine ran inductionHypothesis =>
    obtain ⟨seq, actions, accounted⟩ := before.accounted
    exact (accounted.inOrder_iff inductionHypothesis
      (visits_actions accounted.pending ran)).mpr fine

/-- A run whose heart-beats are unrivalled serves its requests in the order of their arrival, and
the next heart-beat goes on with that exactly if it is unrivalled as well. -/
theorem served_in_order (run : PendingRun actionHead Unrivalled linked number waited log) :
    InOrder waited log ∧ ∀ (moment : Nat → Moment) (fuel : Nat) (linked' : Linked)
      (visits : List Visit),
        linked.doHangingJobs actionHead moment fuel = some (.ok (linked', visits)) →
          (InOrder waited (log ++ visits) ↔ Unrivalled visits) := by
  refine ⟨run.inOrder, fun moment fuel linked' visits ran => ?_⟩
  obtain ⟨seq, actions, accounted⟩ := run.accounted
  exact accounted.inOrder_iff run.inOrder (visits_actions accounted.pending ran)

/-! ### Clients that wait for one list -/

theorem pushRequest_short : (bytes "k x").length ≤ inBufSize := by decide

/-- A request that pushes `x` to `k`. -/
def pushRequest : Request := textRequest "rpush" "k x" pushRequest_short

/-- The state after an arrival, and what `process_request` returned. -/
def Linked.next (linked : Linked) (actionHead addr : Addr) (number : Nat) (request : Request) :
    Linked × Int :=
  (linked.arrive actionHead addr Moment.plain number request).toOption.getD (linked, 0)

/-- Before any request. -/
def noneWaits : Linked := ⟨Server.plain, noActions⟩

/-- After `BLPOP k 0`. -/
def oneWaits (actionHead first : Addr) : Linked :=
  (noneWaits.next actionHead first 0 popRequest).1

/-- After `BLPOP k 0` of another client. -/
def twoWait (actionHead first second : Addr) : Linked :=
  ((oneWaits actionHead first).next actionHead second 1 popRequest).1

/-- What the next heart-beat visits after `RPUSH k x`. -/
def Linked.visited (linked : Linked) (actionHead third : Addr) (number : Nat) : List Visit :=
  let beat := (linked.next actionHead third number pushRequest).1.doHangingJobs actionHead
    (fun _ => Moment.plain) 3
  ((beat.bind Except.toOption).map Prod.snd).getD []

variable {allowed : List Visit → Prop}

theorem noneWaits_run (allowed : List Visit → Prop) : PendingRun 0 allowed noneWaits 0 [] [] := by
  have init : serverInit Env.plain ⟨0, 0, 0, []⟩ (fun _ => 0) = some Server.plain := rfl
  exact .start init rfl rfl fun _ => rfl

theorem oneWaits_run (allowed : List Visit → Prop) :
    PendingRun 0 allowed (oneWaits 0 1) 1 [newAction Moment.plain 0 1 popRequest] [] := by
  have apart : (1 : Addr) ≠ 0 := by decide
  have ran : noneWaits.arrive 0 1 Moment.plain 0 popRequest = .ok (oneWaits 0 1, eBlocked) := rfl
  exact (noneWaits_run allowed).arrive rfl apart ran

theorem twoWait_run (allowed : List Visit → Prop) :
    PendingRun 0 allowed (twoWait 0 1 2) 2 [newAction Moment.plain 1 1027 popRequest,
      newAction Moment.plain 0 1 popRequest] [] := by
  have apart : (2 : Addr) ≠ 0 := by decide
  have ran : (oneWaits 0 1).arrive 0 2 Moment.plain 1 popRequest =
      .ok (twoWait 0 1 2, eBlocked) := rfl
  exact (oneWaits_run allowed).arrive rfl apart ran

/-- A heart-beat after `RPUSH k x`. -/
theorem visited_run {linked : Linked} {number : Nat} {waited : List Action}
    (run : PendingRun 0 allowed linked number waited [])
    (free : linked.heap.action 3 = none)
    (pushed : linked.arrive 0 3 Moment.plain number pushRequest =
      .ok ((linked.next 0 3 number pushRequest).1, 0))
    {after : Linked}
    (beat : (linked.next 0 3 number pushRequest).1.doHangingJobs 0 (fun _ => Moment.plain) 3 =
      some (.ok (after, linked.visited 0 3 number)))
    (fine : allowed (linked.visited 0 3 number)) :
    PendingRun 0 allowed after (number + 1) waited (linked.visited 0 3 number) := by
  have apart : (3 : Addr) ≠ 0 := by decide
  have later := run.arrive free apart pushed
  rw [if_neg (by decide)] at later
  exact later.beat fine beat

/-- A client that waits alone is served. -/
theorem served_in_order_one :
    ∃ linked waited log, PendingRun 0 Unrivalled linked 2 waited log ∧
      (∃ visit ∈ log, visit.takes ≠ none) ∧ InOrder waited log := by
  have single : ∃ visit, (oneWaits 0 1).visited 0 3 1 = [visit] ∧ visit.takes ≠ none :=
    ⟨_, rfl, Option.some_ne_none _⟩
  obtain ⟨visit, alone, served⟩ := single
  have fine : Unrivalled ((oneWaits 0 1).visited 0 3 1) := by
    rw [alone]
    intro before other after key entry split taken behind inAfter
    have lengths := congrArg List.length split
    rw [List.length_append, List.length_singleton, List.length_cons] at lengths
    have none : after = [] := List.length_eq_zero_iff.mp (by omega)
    rw [none] at inAfter
    cases inAfter
  have beat : ∃ after, ((oneWaits 0 1).next 0 3 1 pushRequest).1.doHangingJobs 0
      (fun _ => Moment.plain) 3 = some (.ok (after, (oneWaits 0 1).visited 0 3 1)) := ⟨_, rfl⟩
  obtain ⟨after, beat⟩ := beat
  have run := visited_run (oneWaits_run Unrivalled) rfl rfl beat fine
  refine ⟨after, _, _, run, ⟨visit, ?_, served⟩, (served_in_order run).1⟩
  rw [alone]
  exact List.mem_singleton_self visit

/-- Of two clients that wait for `k` the one that came last gets the entry. -/
theorem not_in_order :
    ∃ linked waited log, PendingRun 0 (fun _ => True) linked 3 waited log ∧
      ¬ InOrder waited log := by
  have beat : ∃ after, ((twoWait 0 1 2).next 0 3 2 pushRequest).1.doHangingJobs 0
      (fun _ => Moment.plain) 3 = some (.ok (after, (twoWait 0 1 2).visited 0 3 2)) := ⟨_, rfl⟩
  obtain ⟨after, beat⟩ := beat
  have run := visited_run (twoWait_run fun _ => True) rfl rfl beat trivial
  have first : ∃ visit behind key entry, (twoWait 0 1 2).visited 0 3 2 = [visit, behind] ∧
      visit.takes = some (key, entry) ∧ visit.action.origin = 1 ∧ key.content = bytes "k" :=
    ⟨_, _, _, _, rfl, rfl, rfl, rfl⟩
  obtain ⟨visit, behind, key, entry, both, taken, origin, named⟩ := first
  refine ⟨after, _, _, run, fun inOrder => ?_⟩
  have less : (newAction Moment.plain 0 1 popRequest).origin < visit.action.origin := by
    rw [origin]
    decide
  have waits : key.content ∈ (newAction Moment.plain 0 1 popRequest).request.waitsFor := by
    rw [named]
    decide
  rcases inOrder [] visit [behind] key entry both taken (newAction Moment.plain 0 1 popRequest)
    (List.mem_cons_of_mem _ List.mem_cons_self) less waits with done | expired
  · cases done
  · exact expired.1 rfl

end PseudoRedis
