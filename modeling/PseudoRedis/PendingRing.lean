/-
This file embeds the pending list as the pointers that `addto_pending` and
`do_hanging_jobs` work on: a ring of actions through the static `_action_head`. An action
is allocated by `malloc` when it is added and released when it is done, and the walk of
`do_hanging_jobs` reads the next pointer of an action before it visits and perhaps
releases it.

The pointers refine the list of `Server`, so what a heart-beat does can be read there. The
account of a run then holds the requests that blocked on their arrival against those that
were answered: what is in the ring is the difference.
-/

import PseudoRedis.Connections
import PseudoRedis.ListRing

namespace PseudoRedis

open Rings

/-! ### The ring -/

/-- The pointers of `_action_head` and the actions, and the other fields of the actions that are
allocated. -/
structure ActionHeap where
  next : Addr → Addr
  prev : Addr → Addr
  action : Addr → Option Action

namespace ActionHeap

/-- The assignment `node->next = target`. -/
def setNext (heap : ActionHeap) (node target : Addr) : ActionHeap :=
  { heap with next := Function.update heap.next node target }

/-- The assignment `node->prev = target`. -/
def setPrev (heap : ActionHeap) (node target : Addr) : ActionHeap :=
  { heap with prev := Function.update heap.prev node target }

/-- The action `malloc` gave is filled in and inserted behind the head. -/
def addtoPending (heap : ActionHeap) (actionHead addr : Addr) (action : Action) : ActionHeap :=
  let heap := { heap with action := Function.update heap.action addr (some action) }
  let heap := heap.setPrev (heap.next actionHead) addr
  let heap := heap.setNext addr (heap.next actionHead)
  let heap := heap.setPrev addr actionHead
  heap.setNext actionHead addr

/-- An action that is done is taken out and released. -/
def remove (heap : ActionHeap) (curr : Addr) : ActionHeap :=
  let heap := heap.setNext (heap.prev curr) (heap.next curr)
  let heap := heap.setPrev (heap.next curr) (heap.prev curr)
  { heap with action := Function.update heap.action curr none }

end ActionHeap

/-- The ring visits these addresses, at which these actions lie, and no other action is
allocated. -/
structure Pending (actionHead : Addr) (heap : ActionHeap) (seq : List Addr)
    (actions : List Action) : Prop where
  ring : Ring heap.next heap.prev actionHead seq
  held : seq.map heap.action = actions.map some
  only : ∀ addr, addr ∉ seq → heap.action addr = none

variable {actionHead addr curr : Addr} {heap : ActionHeap} {seq front back : List Addr}
  {actions frontActions backActions : List Action} {action : Action}

theorem pending_empty (next : heap.next actionHead = actionHead)
    (prev : heap.prev actionHead = actionHead) (none : ∀ addr, heap.action addr = none) :
    Pending actionHead heap [] [] :=
  ⟨Ring.empty_iff.mpr ⟨next, prev⟩, rfl, fun addr _ => none addr⟩

theorem Pending.length_eq (pending : Pending actionHead heap seq actions) :
    seq.length = actions.length := by
  have lengths := congrArg List.length pending.held
  rwa [List.length_map, List.length_map] at lengths

/-- An address that is not allocated is not in the ring. -/
theorem Pending.fresh (pending : Pending actionHead heap seq actions)
    (free : heap.action addr = none) : addr ∉ seq := by
  intro member
  have held : heap.action addr ∈ actions.map some :=
    pending.held ▸ List.mem_map_of_mem member
  rw [free] at held
  obtain ⟨action, -, same⟩ := List.mem_map.mp held
  cases same

theorem Pending.add (pending : Pending actionHead heap seq actions)
    (free : heap.action addr = none) (apart : addr ≠ actionHead) (action : Action) :
    Pending actionHead (heap.addtoPending actionHead addr action) (addr :: seq)
      (action :: actions) := by
  have fresh := pending.fresh free
  have outside : addr ∉ actionHead :: ([] ++ seq) := fun member =>
    (List.mem_cons.mp member).elim apart fresh
  refine ⟨?_, ?_, fun other missing => ?_⟩
  · have linked := @Ring.insert _ _ _ _ _ [] seq addr pending.ring outside
    have first : heap.next actionHead = after actionHead seq := pending.ring.next_head
    have place : before actionHead [] = actionHead := rfl
    rw [← first, place, Function.update_comm apart.symm] at linked
    exact linked
  · have others : seq.map (Function.update heap.action addr (some action)) =
        seq.map heap.action := by
      refine List.map_congr_left fun other member => Function.update_of_ne ?_ _ _
      exact fun same => fresh (same ▸ member)
    show Function.update heap.action addr (some action) addr ::
      seq.map (Function.update heap.action addr (some action)) = _
    rw [others, pending.held, Function.update_self]
    rfl
  · rw [List.mem_cons, not_or] at missing
    exact (Function.update_of_ne missing.1 _ _).trans (pending.only other missing.2)

theorem Pending.remove (pending : Pending actionHead heap (front ++ curr :: back)
      (frontActions ++ action :: backActions))
    (lengths : front.length = frontActions.length) :
    Pending actionHead (heap.remove curr) (front ++ back) (frontActions ++ backActions) := by
  have ring := pending.ring
  obtain ⟨next, prev⟩ := ring.neighbours
  refine ⟨?_, ?_, fun other missing => ?_⟩
  · have unlinked := ring.remove
    rw [← next, ← prev] at unlinked
    have itself : Function.update heap.next (heap.prev curr) (heap.next curr) curr =
        heap.next curr := by
      by_cases same : curr = heap.prev curr
      · rw [← same, Function.update_self]
      · rw [Function.update_of_ne same]
    show Ring (Function.update heap.next (heap.prev curr) (heap.next curr))
      (Function.update heap.prev
        (Function.update heap.next (heap.prev curr) (heap.next curr) curr) (heap.prev curr)) _ _
    rw [itself]
    exact unlinked
  · have held := pending.held
    rw [List.map_append, List.map_append, List.map_cons, List.map_cons] at held
    have aligned : (front.map heap.action).length = (frontActions.map some).length := by
      rw [List.length_map, List.length_map, lengths]
    obtain ⟨before, later⟩ := List.append_inj held aligned
    have kept : (front ++ back).map (Function.update heap.action curr none) =
        (front ++ back).map heap.action := by
      refine List.map_congr_left fun other member => Function.update_of_ne ?_ _ _
      exact fun same => ring.once (same ▸ member)
    show (front ++ back).map (Function.update heap.action curr none) = _
    rw [kept, List.map_append, List.map_append, before, (List.cons.inj later).2]
  · by_cases same : other = curr
    · subst same
      exact Function.update_self _ _ _
    · refine (Function.update_of_ne same _ _).trans (pending.only other fun member => ?_)
      rw [List.mem_append, List.mem_cons] at member
      exact missing (List.mem_append.mpr (member.imp_right fun inBack => inBack.resolve_left same))

/-! ### The server with its ring -/

/-- The global variables with the pending list as pointers; the list of `server` is not used. -/
structure Linked where
  server : Server
  heap : ActionHeap

/-- The action for a request that blocks; its origin is the number of its arrival here. -/
def newAction (moment : Moment) (number next : Nat) (request : Request) : Action :=
  ⟨request.dup, moment.now,
    toInt32 ((readRequest moment.env next request).timeout.getD 0), number⟩

/-- `process_request` of a request that arrives; `malloc` gives this address if it is called. -/
def Linked.arrive (linked : Linked) (actionHead addr : Addr) (moment : Moment) (number : Nat)
    (request : Request) : Except Stop (Linked × Int) :=
  match processRequest moment.env linked.server.next linked.server.keyDict true request
      linked.server.sh with
  | .error stop => .error stop
  | .ok result =>
      .ok ({ server :=
               { linked.server with
                 keyDict := result.dict
                 sh := result.sh
                 next := linked.server.next + maxArgs + 2 }
             heap :=
               if result.ret = eBlocked then
                 linked.heap.addtoPending actionHead addr
                   (newAction moment number linked.server.next request)
               else linked.heap }, result.ret)

/-- An action that was visited, with its address and what the visit found. -/
structure Visit where
  addr : Addr
  server : Server
  moment : Moment
  action : Action
  reply : Option Bytes

def Visit.job (visit : Visit) : Job := ⟨visit.action, visit.reply⟩

/-- The loop of `do_hanging_jobs` from `curr` on. An action that is not allocated cannot be read. -/
def hangingLoop (actionHead : Addr) (moment : Nat → Moment) :
    Nat → Nat → Linked → Addr → Option (Except Stop (Linked × List Visit))
  | 0, _, _, _ => none
  | fuel + 1, index, linked, curr =>
      if curr = actionHead then some (.ok (linked, []))
      else
        let next := linked.heap.next curr
        match linked.heap.action curr with
        | none => some (.error (.fault .outOfBounds))
        | some action =>
            match linked.server.visit (moment index) action with
            | .error stop => some (.error stop)
            | .ok (server, reply) =>
                let heap := if reply.isSome then linked.heap.remove curr else linked.heap
                (hangingLoop actionHead moment fuel (index + 1) ⟨server, heap⟩ next).map
                  (Except.map fun (last, visits) =>
                    (last, ⟨curr, linked.server, moment index, action, reply⟩ :: visits))

/-- `do_hanging_jobs`. -/
def Linked.doHangingJobs (linked : Linked) (actionHead : Addr) (moment : Nat → Moment)
    (fuel : Nat) : Option (Except Stop (Linked × List Visit)) :=
  hangingLoop actionHead moment fuel 0 linked (linked.heap.next actionHead)

/-! ### The pointers refine the list -/

/-- The visits after which the action stays. -/
def stays (visits : List Visit) : List Visit := visits.filter fun visit => visit.reply.isNone

/-- The visits after which the action is done. -/
def dones (visits : List Visit) : List Visit := visits.filter fun visit => visit.reply.isSome

variable {moment : Nat → Moment} {server server' : Server} {stop : Stop} {left : List Action}
  {jobs : List Job} {fuel index : Nat}

/-- With an action left the loop has a step to take, and this is what it reads. -/
theorem Pending.next_visit
    (pending : Pending actionHead heap (front ++ back) (frontActions ++ action :: backActions))
    (lengths : front.length = frontActions.length) (enough : back.length < fuel) :
    ∃ curr rest steps, back = curr :: rest ∧ fuel = steps + 1 ∧ curr ≠ actionHead ∧
      heap.next curr = after actionHead rest ∧ heap.action curr = some action := by
  have same := pending.length_eq
  rw [List.length_append, List.length_append, List.length_cons] at same
  obtain ⟨curr, rest, rfl⟩ := List.exists_cons_of_length_pos (l := back) (by omega)
  obtain ⟨steps, rfl⟩ := Nat.exists_eq_succ_of_ne_zero (Nat.ne_zero_of_lt enough)
  refine ⟨curr, rest, steps, rfl, rfl, fun same => ?_, pending.ring.neighbours.1, ?_⟩
  · exact (List.nodup_cons.mp pending.ring.nodup).1
      (same ▸ List.mem_append_right _ List.mem_cons_self)
  · have held := pending.held
    rw [List.map_append, List.map_append, List.map_cons, List.map_cons] at held
    have later := (List.append_inj held (by rw [List.length_map, List.length_map, lengths])).2
    exact (List.cons.inj later).1

/-- The ring after a visit, the visited action being part of the prefix if it stays. -/
theorem Pending.visited
    (pending : Pending actionHead heap (front ++ curr :: back)
      (frontActions ++ action :: backActions))
    (lengths : front.length = frontActions.length) (reply : Option Bytes) :
    Pending actionHead (if reply.isSome then heap.remove curr else heap)
        ((front ++ if reply.isSome then [] else [curr]) ++ back)
        ((frontActions ++ if reply.isSome then [] else [action]) ++ backActions) ∧
      (front ++ if reply.isSome then [] else [curr]).length =
        (frontActions ++ if reply.isSome then [] else [action]).length := by
  cases reply with
  | none =>
    simp only [Option.isSome_none, Bool.false_eq_true, if_false]
    rw [List.append_assoc, List.append_assoc, List.length_append, List.length_append, lengths]
    exact ⟨pending, rfl⟩
  | some data =>
    simp only [Option.isSome_some, if_true, List.append_nil]
    exact ⟨pending.remove lengths, lengths⟩

/-- A fault of a visit stops the loop. -/
theorem hangingLoop_error
    (pending : Pending actionHead heap (front ++ back) (frontActions ++ backActions))
    (lengths : front.length = frontActions.length) (enough : back.length < fuel)
    (ran : hangingJobs moment index server backActions = .error stop) :
    hangingLoop actionHead moment fuel index ⟨server, heap⟩ (after actionHead back) =
      some (.error stop) := by
  induction backActions generalizing heap front back frontActions server fuel index with
  | nil => cases ran
  | cons action rest inductionHypothesis =>
    obtain ⟨curr, back, steps, rfl, rfl, notHead, next, held⟩ :=
      pending.next_visit lengths enough
    rw [List.length_cons] at enough
    rw [hangingJobs] at ran
    show hangingLoop actionHead moment (steps + 1) index ⟨server, heap⟩ curr = _
    simp only [hangingLoop, if_neg notHead, held, next]
    cases visited : server.visit (moment index) action with
    | error fault =>
      rw [visited] at ran
      cases ran
      rfl
    | ok outcome =>
      obtain ⟨after, reply⟩ := outcome
      rw [visited] at ran
      simp only at ran
      split at ran
      · rename_i fault others
        cases ran
        obtain ⟨moved, longer⟩ := pending.visited lengths reply
        have stopped := @inductionHypothesis _ _ back _ after steps (index + 1) moved longer
          (by omega) others
        simp only [stopped]
        rfl
      · cases ran

/-- The loop visits the actions of the list one after the other and leaves those that stay. -/
theorem hangingLoop_ok
    (pending : Pending actionHead heap (front ++ back) (frontActions ++ backActions))
    (lengths : front.length = frontActions.length) (enough : back.length < fuel)
    (ran : hangingJobs moment index server backActions = .ok (server', left, jobs)) :
    ∃ heap' visits,
      hangingLoop actionHead moment fuel index ⟨server, heap⟩ (after actionHead back) =
        some (.ok (⟨server', heap'⟩, visits)) ∧
      visits.map Visit.addr = back ∧ visits.map Visit.job = jobs ∧
      left = (stays visits).map Visit.action ∧
      Pending actionHead heap' (front ++ (stays visits).map Visit.addr)
        (frontActions ++ left) := by
  induction backActions generalizing heap front back frontActions server fuel index left jobs with
  | nil =>
    cases ran
    have same := pending.length_eq
    rw [List.length_append, List.length_append, List.length_nil] at same
    have none : back = [] := List.length_eq_zero_iff.mp (by omega)
    subst none
    obtain ⟨steps, rfl⟩ : ∃ steps, fuel = steps + 1 := ⟨fuel - 1, by omega⟩
    exact ⟨heap, [], if_pos rfl, rfl, rfl, rfl, pending⟩
  | cons action rest inductionHypothesis =>
    obtain ⟨curr, back, steps, rfl, rfl, notHead, next, held⟩ :=
      pending.next_visit lengths enough
    obtain ⟨between, reply, later, done, visited, others, rfl, rfl⟩ := hangingJobs_cons_inv ran
    rw [List.length_cons] at enough
    obtain ⟨moved, longer⟩ := pending.visited lengths reply
    obtain ⟨heap', visits, looped, addrs, jobsSame, stay, final⟩ :=
      @inductionHypothesis _ _ back _ between later done steps (index + 1) moved longer
        (by omega) others
    refine ⟨heap', ⟨curr, server, moment index, action, reply⟩ :: visits, ?_, ?_, ?_, ?_, ?_⟩
    · show hangingLoop actionHead moment (steps + 1) index ⟨server, heap⟩ curr = _
      simp only [hangingLoop, if_neg notHead, held, next, visited, looped]
      rfl
    · rw [List.map_cons, addrs]
    · rw [List.map_cons, jobsSame]
      rfl
    · rw [stay]
      cases reply <;> rfl
    · cases reply with
      | none =>
        rw [List.append_assoc, List.append_assoc] at final
        exact final
      | some data =>
        simp only [Option.isSome_some, if_true, List.append_nil] at final
        exact final

/-- More steps do not change what the loop came to. -/
theorem hangingLoop_mono {linked : Linked} {outcome : Except Stop (Linked × List Visit)}
    {more : Nat} (enough : fuel ≤ more)
    (ran : hangingLoop actionHead moment fuel index linked curr = some outcome) :
    hangingLoop actionHead moment more index linked curr = some outcome := by
  induction fuel generalizing more index linked curr outcome with
  | zero => cases ran
  | succ steps inductionHypothesis =>
    obtain ⟨others, rfl⟩ : ∃ others, more = others + 1 := ⟨more - 1, by omega⟩
    rw [hangingLoop] at ran ⊢
    split
    · rename_i atHead
      rwa [if_pos atHead] at ran
    · rename_i inside
      rw [if_neg inside] at ran
      simp only at ran ⊢
      split
      · rename_i freed
        rwa [freed] at ran
      · rename_i action held
        simp only [held] at ran
        split
        · rename_i stop visited
          rwa [visited] at ran
        · rename_i server reply visited
          simp only [visited] at ran
          obtain ⟨later, looped, same⟩ := Option.map_eq_some_iff.mp ran
          rw [inductionHypothesis (Nat.le_of_succ_le_succ enough) looped, ← same]
          rfl

/-- A heart-beat on the pointers is one on the list. -/
theorem doHangingJobs_refines {linked linked' : Linked} {visits : List Visit}
    (pending : Pending actionHead linked.heap seq actions)
    (ran : linked.doHangingJobs actionHead moment fuel = some (.ok (linked', visits))) :
    hangingJobs moment 0 linked.server actions =
        .ok (linked'.server, (stays visits).map Visit.action, visits.map Visit.job) ∧
      visits.map Visit.addr = seq ∧
      Pending actionHead linked'.heap ((stays visits).map Visit.addr)
        ((stays visits).map Visit.action) := by
  have more : hangingLoop actionHead moment (max fuel (seq.length + 1)) 0 linked
      (after actionHead seq) = some (.ok (linked', visits)) := by
    rw [← pending.ring.next_head]
    exact hangingLoop_mono (le_max_left _ _) ran
  have enough : seq.length < max fuel (seq.length + 1) := lt_of_lt_of_le (Nat.lt_succ_self _)
    (le_max_right _ _)
  cases jobs : hangingJobs moment 0 linked.server actions with
  | error stop =>
    have stopped := @hangingLoop_error _ _ [] seq [] actions _ _ _ _ _ pending rfl enough jobs
    rw [more] at stopped
    cases stopped
  | ok outcome =>
    obtain ⟨server, left, done⟩ := outcome
    obtain ⟨heap, others, looped, addrs, sameJobs, rfl, final⟩ :=
      @hangingLoop_ok _ _ [] seq [] actions _ _ _ _ _ _ _ pending rfl enough jobs
    rw [more] at looped
    cases looped
    exact ⟨by rw [sameJobs], addrs, final⟩

/-! ### The steps of `Server` -/

/-- The same global variables with another pending list. -/
def Server.withActions (server : Server) (actions : List Action) : Server := { server with actions }

/-- An arrival at the ring is one at the list. -/
theorem arrive_refines {linked linked' : Linked} {once : Moment} {number : Nat} {request : Request}
    {ret : Int}
    (ran : linked.arrive actionHead addr once number request = .ok (linked', ret)) :
    (linked.server.withActions actions).process once number true request =
      .ok (linked'.server.withActions
        (if ret = eBlocked then newAction once number linked.server.next request :: actions
          else actions), ret) := by
  rw [Linked.arrive] at ran
  split at ran
  · cases ran
  · rename_i result processed
    cases ran
    simp only [Server.process, Server.withActions, processed, true_and]
    rfl

/-- A visit does not look at the list. -/
theorem visit_withActions {once : Moment} {reply : Option Bytes}
    (ran : server.visit once action = .ok (server', reply)) :
    (server.withActions actions).visit once action =
      .ok (server'.withActions actions, reply) := by
  have finish {server server' : Server}
      (finished : server.finishJob once action = .ok (server', reply)) :
      (server.withActions actions).finishJob once action =
        .ok (server'.withActions actions, reply) := by
    obtain ⟨bss, sh, ret, written, built, rfl⟩ := finishJob_inv finished
    rw [Server.finishJob] at finished
    simp only [written, built] at finished
    cases finished
    have same : (server.withActions actions).setTime once.env
        (once.sprintfTime once.now action.tv) = .ok bss := written
    have encoded : createArrReply once.env (addtoReplyArr
        ((server.withActions actions).sh.overwrite bss) (some bss) (strNotQuoted ||| strNi)).1
          rplyArr = .ok (sh, ret) := built
    simp only [Server.finishJob, same, encoded]
    rfl
  rcases visit_inv ran with ⟨expired, finished⟩ | ⟨running, next, ret, processed, outcome⟩
  · rw [Server.visit, if_pos expired]
    exact finish finished
  · have replay : (server.withActions actions).process once action.origin false action.request =
        .ok (next.withActions actions, ret) := by
      rw [Server.process] at processed
      split at processed
      · cases processed
      · rename_i result served
        cases processed
        simp only [Server.process, Server.withActions, served, Bool.false_eq_true, false_and,
          if_false]
    rw [Server.visit, if_neg running, replay]
    rcases outcome with ⟨blocked, rfl⟩ | ⟨replied, finished⟩
    · rw [Server.visit, if_neg running, processed] at ran
      simp only [if_pos blocked] at ran ⊢
      cases ran
      rfl
    · simp only [if_neg replied]
      exact finish finished

theorem hangingJobs_withActions (list : List Action)
    (ran : hangingJobs moment index server actions = .ok (server', left, jobs)) :
    hangingJobs moment index (server.withActions list) actions =
      .ok (server'.withActions list, left, jobs) := by
  induction actions generalizing index server left jobs with
  | nil =>
    cases ran
    rfl
  | cons action rest inductionHypothesis =>
    obtain ⟨next, reply, later, done, visited, others, rfl, rfl⟩ := hangingJobs_cons_inv ran
    rw [hangingJobs, visit_withActions visited]
    simp only [inductionHypothesis others]

/-- A heart-beat on the ring is one on the list. -/
theorem beat_refines {linked linked' : Linked} {visits : List Visit}
    (pending : Pending actionHead linked.heap seq actions)
    (ran : linked.doHangingJobs actionHead moment fuel = some (.ok (linked', visits))) :
    doHangingJobs moment (linked.server.withActions actions) =
      .ok (linked'.server.withActions ((stays visits).map Visit.action),
        visits.map Visit.job) := by
  have jobs := hangingJobs_withActions actions (doHangingJobs_refines pending ran).1
  have same : (linked.server.withActions actions).actions = actions := rfl
  simp only [doHangingJobs, same, jobs]
  rfl

/-! ### Runs and their account -/

/-- The states that arriving requests and heart-beats lead to, if the visits of every heart-beat
are allowed: with the number of arrivals, the actions of the requests that blocked when they
arrived, the last one first, and all visits so far. An address that `malloc` gives is not
allocated. -/
inductive PendingRun (actionHead : Addr) (allowed : List Visit → Prop) :
    Linked → Nat → List Action → List Visit → Prop
  | start {env : Env} {curr : Reply} {buffer : Buffer} {server : Server} {heap : ActionHeap}
      (init : serverInit env curr buffer = some server)
      (next : heap.next actionHead = actionHead) (prev : heap.prev actionHead = actionHead)
      (none : ∀ addr, heap.action addr = none) :
      PendingRun actionHead allowed ⟨server, heap⟩ 0 [] []
  | arrive {linked linked' : Linked} {number : Nat} {waited : List Action} {log : List Visit}
      {addr : Addr} {moment : Moment} {request : Request} {ret : Int}
      (before : PendingRun actionHead allowed linked number waited log)
      (free : linked.heap.action addr = none) (apart : addr ≠ actionHead)
      (ran : linked.arrive actionHead addr moment number request = .ok (linked', ret)) :
      PendingRun actionHead allowed linked' (number + 1)
        (if ret = eBlocked then newAction moment number linked.server.next request :: waited
          else waited) log
  | beat {linked linked' : Linked} {number : Nat} {waited : List Action}
      {log visits : List Visit} {moment : Nat → Moment} {fuel : Nat}
      (before : PendingRun actionHead allowed linked number waited log) (fine : allowed visits)
      (ran : linked.doHangingJobs actionHead moment fuel = some (.ok (linked', visits))) :
      PendingRun actionHead allowed linked' number waited (log ++ visits)

/-- The actions that were answered. -/
def answered (log : List Visit) : List Action := (dones log).map Visit.action

/-- The ring holds the actions that blocked and were not answered, the last one first. -/
structure Accounted (actionHead : Addr) (linked : Linked) (number : Nat) (waited : List Action)
    (log : List Visit) (seq : List Addr) (actions : List Action) : Prop where
  pending : Pending actionHead linked.heap seq actions
  sub : actions.Sublist waited
  all : (actions ++ answered log).Perm waited
  order : waited.Pairwise fun later earlier => earlier.origin < later.origin
  below : ∀ action ∈ waited, action.origin < number

variable {linked linked' : Linked} {number : Nat} {waited : List Action} {log visits : List Visit}
  {request : Request} {ret : Int} {once : Moment}

/-- The ring after a request arrived. -/
theorem arrive_heap (pending : Pending actionHead linked.heap seq actions)
    (free : linked.heap.action addr = none) (apart : addr ≠ actionHead)
    (ran : linked.arrive actionHead addr once number request = .ok (linked', ret)) :
    (ret = eBlocked → Pending actionHead linked'.heap (addr :: seq)
      (newAction once number linked.server.next request :: actions)) ∧
    (ret ≠ eBlocked → linked'.heap = linked.heap) := by
  rw [Linked.arrive] at ran
  split at ran
  · cases ran
  · rename_i result processed
    cases ran
    refine ⟨fun blocked => ?_, fun replied => if_neg replied⟩
    simp only [if_pos blocked]
    exact pending.add free apart _

theorem Accounted.arrive (accounted : Accounted actionHead linked number waited log seq actions)
    (free : linked.heap.action addr = none) (apart : addr ≠ actionHead)
    (ran : linked.arrive actionHead addr once number request = .ok (linked', ret)) :
    ∃ seq' actions', Accounted actionHead linked' (number + 1)
      (if ret = eBlocked then newAction once number linked.server.next request :: waited
        else waited) log seq' actions' := by
  obtain ⟨blocks, replies⟩ := arrive_heap accounted.pending free apart ran
  by_cases blocked : ret = eBlocked
  · rw [if_pos blocked]
    refine ⟨_, _, blocks blocked, accounted.sub.cons_cons _, accounted.all.cons _,
      List.pairwise_cons.mpr ⟨fun earlier member => accounted.below earlier member,
        accounted.order⟩, List.forall_mem_cons.mpr ⟨Nat.lt_succ_self _, fun action member => ?_⟩⟩
    exact Nat.lt_succ_of_lt (accounted.below action member)
  · rw [if_neg blocked]
    have same := replies blocked
    refine ⟨seq, actions, ?_, accounted.sub, accounted.all, accounted.order, fun action member =>
      Nat.lt_succ_of_lt (accounted.below action member)⟩
    rw [same]
    exact accounted.pending

/-- A visit leaves its action in the ring or answers it. -/
theorem stays_dones_perm (visits : List Visit) :
    ((stays visits).map Visit.action ++ answered visits).Perm (visits.map Visit.action) := by
  rw [answered, ← List.map_append]
  refine List.Perm.map _ ?_
  have split := List.filter_append_perm (fun visit : Visit => visit.reply.isNone) visits
  simp only [Option.not_isNone] at split
  exact split

theorem visits_actions (pending : Pending actionHead linked.heap seq actions)
    (ran : linked.doHangingJobs actionHead moment fuel = some (.ok (linked', visits))) :
    visits.map Visit.action = actions := by
  obtain ⟨jobs, -, -⟩ := doHangingJobs_refines pending ran
  rw [← (hangingJobs_actions jobs).2, List.map_map]
  rfl

theorem Accounted.beat (accounted : Accounted actionHead linked number waited log seq actions)
    (ran : linked.doHangingJobs actionHead moment fuel = some (.ok (linked', visits))) :
    Accounted actionHead linked' number waited (log ++ visits) ((stays visits).map Visit.addr)
      ((stays visits).map Visit.action) := by
  obtain ⟨jobs, -, pending⟩ := doHangingJobs_refines accounted.pending ran
  have all := visits_actions accounted.pending ran
  refine ⟨pending, (hangingJobs_actions jobs).1.trans accounted.sub, ?_, accounted.order,
    accounted.below⟩
  have split := (stays_dones_perm visits).append_right (answered log)
  rw [all] at split
  refine List.Perm.trans ?_ (split.trans accounted.all)
  rw [answered, dones, List.filter_append, List.map_append, List.append_assoc]
  exact List.Perm.append_left _ List.perm_append_comm

theorem PendingRun.accounted {allowed : List Visit → Prop}
    (run : PendingRun actionHead allowed linked number waited log) :
    ∃ seq actions, Accounted actionHead linked number waited log seq actions := by
  induction run with
  | start init next prev none =>
    refine ⟨[], [], pending_empty next prev none, List.Sublist.refl _, List.Perm.refl _,
      List.Pairwise.nil, fun action member => ?_⟩
    cases member
  | arrive before free apart ran inductionHypothesis =>
    obtain ⟨seq, actions, accounted⟩ := inductionHypothesis
    exact accounted.arrive free apart ran
  | beat before fine ran inductionHypothesis =>
    obtain ⟨seq, actions, accounted⟩ := inductionHypothesis
    exact ⟨_, _, accounted.beat ran⟩

/-- No two actions of the account are equal. -/
theorem Accounted.nodup (accounted : Accounted actionHead linked number waited log seq actions) :
    waited.Nodup ∧ (waited.map Action.origin).Nodup := by
  have origins : (waited.map Action.origin).Nodup := by
    refine List.pairwise_map.mpr (accounted.order.imp fun below => ?_)
    exact Nat.ne_of_gt below
  exact ⟨List.Nodup.of_map _ origins, origins⟩

/-- Memory without actions. -/
def noActions : ActionHeap where
  next := id
  prev := id
  action := fun _ => none

theorem popRequest_short : (bytes "k 0").length ≤ inBufSize := by decide

/-- A request for an entry of `k`, with no timeout. -/
def popRequest : Request := textRequest "blpop" "k 0" popRequest_short

end PseudoRedis
