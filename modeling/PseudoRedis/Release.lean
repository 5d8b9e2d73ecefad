/-
This file follows the buffers the server releases through whole runs. Two things break
the rule that each is released once and not touched afterwards: a blocking command that
is refused encodes the array of an earlier request again, and a blocked `BLPOP` or
`BRPOP` that is satisfied at a heart-beat is encoded twice. A run without these two
keeps the rule.
-/

import PseudoRedis.Connections
import PseudoRedis.Ownership

namespace PseudoRedis

/-! ### Steps that keep the rule -/

/-- No request makes an encoding touch a released buffer: the array a refusal encodes shows none,
and an array that is encoded twice releases nothing. -/
def Server.Safe (server : Server) (moment : Moment) (isNew : Bool) (request : Request) : Prop :=
  match readRequest moment.env server.next request with
  | .stops _ => True
  | .fails _ => isNew = false → Clean server.sh.elems server.sh.released
  | .calls command args _ =>
      match command.func.listing (handlerEnv moment.env server.next) server.keyDict args with
      | some (.left elems) => isNew = false → Quiet (wrapped elems)
      | some (.encoded _ _) => True
      | none =>
          command.type = blocked → ¬ command.func.Waits server.keyDict args →
            Clean server.sh.elems server.sh.released ∧ (isNew = false → Quiet server.sh.elems)

/-- The visits of a heart-beat are safe where they happen, except those of actions whose timeout is
reached. -/
def SafeJobs (moment : Nat → Moment) (index : Nat) : Server → List Action → Prop
  | _, [] => True
  | server, action :: rest =>
      (¬ action.expired (moment index) → server.Safe (moment index) false action.request) ∧
        ∀ next reply, server.visit (moment index) action = .ok (next, reply) →
          SafeJobs moment (index + 1) next rest

/-- The requests an event makes the server process are safe. -/
def Careful (world : World) : Event → Prop
  | .accept _ => True
  | .input fd moment chunk =>
      world.server.Safe moment true ((world.server.currRequest.overlay chunk).request fd)
  | .hangUp _ => True
  | .heartBeat moment => SafeJobs moment 0 world.server world.server.actions

/-! ### One request -/

variable {env : Env} {dict : Dict Obj} {sh : Shared} {args : List Bss}

/-- What a blocking handler that does not wait leaves in the array. -/
theorem blocking_left {listed : Option Listing} {waiting : Prop} {run : Run Obj}
    {isNew : Bool} {fill : Option (List Elem)} {answer : Answer} {filled : Shared}
    {handled : Result Obj} (how : BlockingRun env dict waiting listed run)
    (ran : run sh = .ok handled) (goesOn : handled.ret ≠ eBlocked)
    (listing : answer.encodes fill = listed) (fills : Fills fill sh filled)
    (finished : answer.finish env handled.dict filled = .ok handled)
    (clean : fill ≠ none → Clean filled.elems filled.released)
    (left : ∀ elems, listed = some (.left elems) → isNew = false → Quiet (wrapped elems))
    (stale : listed = none → ¬ waiting →
      Clean sh.elems sh.released ∧ (isNew = false → Quiet sh.elems)) :
    Clean handled.sh.elems handled.sh.released ∧ (isNew = false → Quiet handled.sh.elems) := by
  cases how with
  | stops stop nothing same =>
    rw [same] at ran
    cases ran
  | refuses dict' s text nothing present same =>
    rw [same, failReply_eq] at ran
    cases ran
    exact stale nothing present
  | waits nothing same =>
    rcases same with rfl | rfl
    · cases ran
      exact absurd rfl goesOn
    · cases ran
      exact absurd rfl goesOn
  | satisfied dict' elems ret listing' code same =>
    rw [same] at ran
    have answered : handled.ret = ret := (congrArg Result.ret (Except.ok.inj ran)).symm
    have toLeave : listed = some (.left elems) := by
      rw [← listing', Answer.encodes, if_neg (answered ▸ goesOn)]
      rfl
    obtain ⟨filledWith, code', silent⟩ := fill_of_left (listing.trans toLeave)
    subst filledWith
    subst silent
    have kept : handled.sh = filled := (congrArg Result.sh (Except.ok.inj finished)).symm
    have elems' : filled.elems = wrapped elems := fills.elems
    rw [kept]
    exact ⟨clean (Option.some_ne_none elems), fun old => elems' ▸ left elems toLeave old⟩

/-- What a request leaves: its buffers have one holder each, and if it was answered at a heart-beat
the array can be encoded once more. -/
structure Left (next : Nat) (isNew : Bool) (result : Result Obj) : Prop where
  sound : Sound True result.dict
  owned : Owned result.dict (afterRequest next) result.sh
  again : isNew = false → result.ret ≠ eBlocked → Clean result.sh.elems result.sh.released

theorem next_le_afterRequest (next : Nat) : next ≤ afterRequest next :=
  Nat.le_trans (Nat.le_add_right _ _) (Nat.le_add_right _ _)

/-- What `process_request` does with the return value of a handler. -/
theorem left_of_finish {type : UInt8} {isNew : Bool} {next : Nat} {handled result : Result Obj}
    (sound : Sound True handled.dict) (owned : Owned handled.dict (afterRequest next) handled.sh)
    (blocks : type = blocked → handled.ret ≠ eBlocked →
      Clean handled.sh.elems handled.sh.released ∧ (isNew = false → Quiet handled.sh.elems))
    (old : isNew = false → type = blocked)
    (ran : finishRequest env type isNew handled handled.sh = .ok result) :
    Left next isNew result := by
  by_cases long : handled.ret = eTooLong
  · rw [finishRequest, if_pos long, failReply_eq] at ran
    cases ran
    refine ⟨sound, owned.congr rfl rfl rfl, fun again _ => ?_⟩
    exact (blocks (old again) (by rw [long]; decide)).1
  · by_cases waits : handled.ret = eBlocked
    · have wait := finishRequest_blocked waits ran
      rw [finishRequest, if_neg long, if_pos waits] at ran
      split at ran
      · cases ran
      · cases ran
        exact ⟨sound, owned, fun _ answered => absurd wait answered⟩
    · rw [finishRequest_answered long waits] at ran
      by_cases block : type = blocked
      · obtain ⟨clean, quiet⟩ := blocks block waits
        rw [if_pos block, arrReply, arrayReply] at ran
        split at ran
        · cases ran
        · rename_i after ret built
          cases ran
          refine ⟨sound, owned.encode clean built, fun again _ => ?_⟩
          have elems := (createArrReply_encoded built).1
          have released := createArrReply_quiet built (quiet again)
          show Clean after.elems after.released
          rw [elems, released]
          exact clean
      · rw [if_neg block] at ran
        cases ran
        exact ⟨sound, owned, fun again => absurd (old again) block⟩

theorem processRequest_left {server : Server} {moment : Moment} {isNew : Bool}
    {request : Request} {result : Result Obj} (sound : Sound True server.keyDict)
    (positive : 0 < server.next) (owned : Owned server.keyDict server.next server.sh)
    (safe : server.Safe moment isNew request)
    (old : isNew = false → ∀ command, findCommand request.command = some command →
      command.type = blocked)
    (ran : processRequest moment.env server.next server.keyDict isNew request server.sh =
      .ok result) : Left server.next isNew result := by
  rw [processRequest] at ran
  rw [Server.Safe] at safe
  cases read : readRequest moment.env server.next request with
  | stops stop =>
    rw [read] at ran
    cases ran
  | fails s =>
    have text : ErrorText s := readRequest_error read
    rw [read] at ran safe
    simp only [failReply_eq] at ran
    cases ran
    exact ⟨sound, (owned.mono (next_le_afterRequest _)).congr rfl rfl rfl,
      fun again _ => safe again⟩
  | calls command args timeout =>
    rw [read] at ran safe
    have called := readRequest_called read
    have provided : Provided (handlerEnv moment.env server.next) server.next args :=
      ⟨rfl, called.ids⟩
    simp only at ran safe
    cases handler : command.func.run (handlerEnv moment.env server.next) server.keyDict args
        server.sh with
    | error stop =>
      rw [andThen_error handler] at ran
      cases ran
    | ok handled =>
      rw [andThen_ok handler] at ran
      have does := (called.call moment.env).does_any sound
      obtain ⟨fill, answer, filled, effect, fills, finished⟩ := does.result handler
      obtain ⟨holders, clean⟩ := owned.handle positive provided effect fills
      have ended := holders.finish clean effect.fresh finished
      refine left_of_finish effect.sound ended (fun block goesOn => ?_)
        (fun again => old again command called.found) ran
      have how := blocking_run (handlerEnv moment.env server.next) (called.blocks.mp block)
        server.keyDict args
      refine blocking_left how handler goesOn effect.listed fills finished clean
        (fun elems left again => ?_) fun nothing present => ?_
      · rw [left] at safe
        exact safe again
      · rw [nothing] at safe
        exact safe block present

/-! ### The server -/

/-- Every name of a pending request is that of a blocking command. -/
def AllBlocking (actions : List Action) : Prop :=
  ∀ action ∈ actions, ∀ command, findCommand action.request.command = some command →
    command.type = blocked

/-- The invariant: each buffer has one holder, and the time string has an allocation of its own
that is never exchanged. -/
structure Kept (server : Server) : Prop where
  sound : Sound True server.keyDict
  positive : 0 < server.next
  owned : Owned server.keyDict server.next server.sh
  time : server.timeBss.id = timeId
  area : server.timeBss.size = timeLen
  pending : AllBlocking server.actions

/-- A request that is blocked names a blocking command. -/
theorem blocks_of_blocked {next : Nat} {keyDict : Dict Obj} {request : Request}
    {result : Result Obj} (ran : processRequest env next keyDict true request sh = .ok result)
    (waits : result.ret = eBlocked) {command : Command}
    (found : findCommand request.command = some command) : command.type = blocked := by
  rw [processRequest] at ran
  cases read : readRequest env next request with
  | stops stop =>
    rw [read] at ran
    cases ran
  | fails s =>
    have text : ErrorText s := readRequest_error read
    rw [read] at ran
    simp only [failReply_eq] at ran
    cases ran
    exact absurd waits (by decide : (0 : Int) ≠ eBlocked)
  | calls other args timeout =>
    have same : other = command :=
      Option.some.inj ((readRequest_called read).found.symm.trans found)
    subst same
    rw [read] at ran
    simp only at ran
    cases handler : other.func.run (handlerEnv env next) keyDict args sh with
    | error stop =>
      rw [andThen_error handler] at ran
      cases ran
    | ok handled =>
      rw [andThen_ok handler] at ran
      by_contra direct
      by_cases wait : handled.ret = eBlocked
      · rw [finishRequest, wait, if_neg (by decide), if_pos rfl, if_pos ⟨rfl, direct⟩] at ran
        cases ran
      · by_cases long : handled.ret = eTooLong
        · rw [finishRequest, if_pos long, failReply_eq] at ran
          cases ran
          exact absurd waits (by decide : (0 : Int) ≠ eBlocked)
        · rw [finishRequest_answered long wait, if_neg direct] at ran
          cases ran
          exact wait waits

theorem Kept.process {server server' : Server} (kept : Kept server) {moment : Moment}
    {origin : Nat} {isNew : Bool} {request : Request} {ret : Int}
    (safe : server.Safe moment isNew request)
    (old : isNew = false → ∀ command, findCommand request.command = some command →
      command.type = blocked)
    (ran : server.process moment origin isNew request = .ok (server', ret)) :
    Kept server' ∧ (isNew = false → server'.actions = server.actions ∧
      (ret ≠ eBlocked → Clean server'.sh.elems server'.sh.released)) := by
  rw [Server.process] at ran
  split at ran
  · cases ran
  · rename_i result served
    cases ran
    have left := processRequest_left kept.sound kept.positive kept.owned safe old served
    refine ⟨⟨left.sound, Nat.lt_of_lt_of_le kept.positive (next_le_afterRequest _), left.owned,
      kept.time, kept.area, ?_⟩, fun again => ⟨?_, left.again again⟩⟩
    · by_cases waits : isNew = true ∧ result.ret = eBlocked
      · simp only [if_pos waits, addtoPending]
        intro action member
        rcases List.mem_cons.mp member with rfl | later
        · rw [waits.1] at served
          exact fun command found => blocks_of_blocked served waits.2 found
        · exact kept.pending action later
      · simp only [if_neg waits]
        exact kept.pending
    · rw [again]
      rfl

/-! ### The time string -/

/-- The time string is written in place. -/
theorem setTime_inPlace {server : Server} (time : server.timeBss.id = timeId)
    (area : server.timeBss.size = timeLen) {strtm : Bytes} {bss : Bss}
    (written : server.setTime env strtm = .ok bss) : bss.id = timeId ∧ bss.size = timeLen := by
  rw [Server.setTime] at written
  split at written
  · cases written
  · rename_i short
    have room : ¬ server.timeBss.size < strtm.length := by
      rw [area]
      omega
    rw [bssSet, if_neg room] at written
    cases stored : (store server.timeBss.str 0 strtm).bind fun str =>
        store str strtm.length [0] with
    | error stop =>
      rw [stored] at written
      cases written
    | ok str =>
      rw [stored] at written
      cases written
      refine ⟨time, ?_⟩
      show strtm.length + (server.timeBss.size - strtm.length) = timeLen
      rw [area]
      omega

/-- The element that shows the time. -/
def timeElem (bss : Bss) : Elem := ⟨some bss, strNotQuoted ||| strNi⟩

theorem timeElem_freed (bss : Bss) : (timeElem bss).freed = [] := by
  have string : ¬ (strNil &&& (strNotQuoted ||| strNi) ≠ 0) := by decide
  have kept : ¬ ((strNotQuoted ||| strNi) &&& needFree ≠ 0) := by decide
  show (if strNil &&& (strNotQuoted ||| strNi) ≠ 0 then []
    else if (strNotQuoted ||| strNi) &&& needFree ≠ 0 then [bss.id] else []) = []
  rw [if_neg string, if_neg kept]

theorem timeElem_read (bss : Bss) : (timeElem bss).read = [bss.id] := read_ni (by decide)

/-- When the counter comes round the array has no elements. -/
theorem elems_push_full {sh : Shared} (full : ¬ sh.rplyArrLen.toNat < 255) (elem : Elem) :
    (sh.push elem).elems = [] := by
  have last : sh.rplyArrLen = 255 := by
    have small := sh.rplyArrLen.toNat_lt
    refine UInt8.toNat_inj.mp ?_
    show sh.rplyArrLen.toNat = 255
    omega
  rw [Shared.elems, Shared.push, last]
  rfl

/-- The array after an addition has one more element, or none when the counter comes round. -/
theorem elems_push_cases (sh : Shared) (elem : Elem) :
    (sh.push elem).elems = sh.elems ++ [elem] ∨ (sh.push elem).elems = [] := by
  by_cases room : sh.rplyArrLen.toNat < 255
  · exact Or.inl (elems_push room elem)
  · exact Or.inr (elems_push_full room elem)

/-- The array `do_hanging_jobs` encodes. -/
def Shared.timed (sh : Shared) (bss : Bss) : Shared := (sh.overwrite bss).push (timeElem bss)

theorem mem_timed {bss : Bss} {elem : Elem} (member : elem ∈ (sh.timed bss).elems) :
    (∃ old ∈ sh.elems, elem = old.refresh bss) ∨ elem = timeElem bss := by
  rcases elems_push_cases (sh.overwrite bss) (timeElem bss) with more | none
  · rw [Shared.timed, more, elems_overwrite] at member
    rcases List.mem_append.mp member with old | new
    · obtain ⟨elem, inside, rfl⟩ := List.mem_map.mp old
      exact Or.inl ⟨elem, inside, rfl⟩
    · exact Or.inr (List.mem_singleton.mp new)
  · rw [Shared.timed, none] at member
    cases member

variable {next : Nat} {bss : Bss}

/-- The time string has not been released. -/
theorem Owned.clean_timed (owned : Owned dict next sh) (time : bss.id = timeId)
    (clean : Clean sh.elems sh.released) : Clean (sh.timed bss).elems sh.released := by
  intro elem member id read
  rcases mem_timed member with ⟨old, inside, rfl⟩ | rfl
  · rw [(refresh_ids bss old).2] at read
    exact clean old inside id read
  · rw [timeElem_read, time] at read
    intro released
    have positive := (owned.released id released).1
    rw [List.mem_singleton.mp read] at positive
    exact absurd positive (by decide)

/-- The time string is none of the buffers that have a holder. -/
theorem Owned.timed (owned : Owned dict next sh) (time : bss.id = timeId)
    (clean : Clean sh.elems sh.released) : Owned dict next (sh.timed bss) := by
  refine ⟨owned.once, owned.made, owned.releasedOnce, owned.released, owned.untouched, ?_,
    fun elem member id freed => ?_, fun _ => owned.clean_timed time clean⟩
  · rcases elems_push_cases (sh.overwrite bss) (timeElem bss) with more | none
    · rw [Shared.timed, more, elems_overwrite]
      refine List.pairwise_append.mpr ⟨List.pairwise_map.mpr (owned.apart.imp ?_),
        List.pairwise_singleton _ _, fun elem member last inLast id freed read => ?_⟩
      · intro earlier later apart id
        rw [(refresh_ids bss earlier).1, (refresh_ids bss later).2]
        exact apart id
      · obtain ⟨old, inside, rfl⟩ := List.mem_map.mp member
        rw [(refresh_ids bss old).1] at freed
        rw [List.mem_singleton.mp inLast, timeElem_read, time] at read
        have positive := (owned.owned old inside id freed).1
        rw [List.mem_singleton.mp read] at positive
        exact absurd positive (by decide)
    · rw [Shared.timed, none]
      exact List.Pairwise.nil
  · rcases mem_timed member with ⟨old, inside, rfl⟩ | rfl
    · rw [(refresh_ids bss old).1] at freed
      exact owned.owned old inside id freed
    · rw [timeElem_freed] at freed
      cases freed

/-- The end of a job encodes the array with the time. -/
theorem Kept.finishJob {server server' : Server} {moment : Moment} {action : Action}
    {reply : Option Bytes} (kept : Kept server)
    (clean : Clean server.sh.elems server.sh.released)
    (ran : server.finishJob moment action = .ok (server', reply)) :
    Kept server' ∧ server'.actions = server.actions := by
  obtain ⟨bss, after, ret, written, built, rfl⟩ := finishJob_inv ran
  obtain ⟨time, area⟩ := setTime_inPlace kept.time kept.area written
  rw [addtoReplyArr_eq] at built
  have built' : createArrReply moment.env (server.sh.timed bss) rplyArr = .ok (after, ret) := built
  have owned := (kept.owned.timed time clean).encode (kept.owned.clean_timed time clean) built'
  exact ⟨⟨kept.sound, kept.positive, owned, time, area, kept.pending⟩, rfl⟩

/-! ### Heart-beats -/

/-- The array of a timeout: a nil alone. -/
theorem elems_expired (sh : Shared) :
    ((resetReplyArr sh).push ⟨none, strNil ||| strNi⟩).elems = [⟨none, strNil ||| strNi⟩] := rfl

theorem Kept.visit {server server' : Server} (kept : Kept server) {moment : Moment}
    {action : Action} {reply : Option Bytes}
    (safe : ¬ action.expired moment → server.Safe moment false action.request)
    (blocks : ∀ command, findCommand action.request.command = some command →
      command.type = blocked)
    (ran : server.visit moment action = .ok (server', reply)) :
    Kept server' ∧ server'.actions = server.actions := by
  rcases visit_inv ran with ⟨-, finished⟩ | ⟨running, next, ret, processed, outcome⟩
  · have nothing (elem : Elem)
        (member : elem ∈ ((resetReplyArr server.sh).push ⟨none, strNil ||| strNi⟩).elems) :
        elem.freed = [] ∧ elem.read = [] := by
      rw [elems_expired] at member
      rw [List.mem_singleton.mp member]
      exact ⟨rfl, rfl⟩
    have clean : Clean ((resetReplyArr server.sh).push ⟨none, strNil ||| strNi⟩).elems
        server.sh.released := by
      intro elem member id read
      rw [(nothing elem member).2] at read
      cases read
    have owned : Owned server.keyDict server.next
        ((resetReplyArr server.sh).push ⟨none, strNil ||| strNi⟩) := by
      refine ⟨kept.owned.once, kept.owned.made, kept.owned.releasedOnce, kept.owned.released,
        kept.owned.untouched, ?_, fun elem member id freed => ?_, fun _ => clean⟩
      · rw [elems_expired]
        exact List.pairwise_singleton _ _
      · rw [(nothing elem member).1] at freed
        cases freed
    rw [addtoReplyArr_eq] at finished
    have before : Kept { server with
        sh := (resetReplyArr server.sh).push ⟨none, strNil ||| strNi⟩ } :=
      ⟨kept.sound, kept.positive, owned, kept.time, kept.area, kept.pending⟩
    exact before.finishJob clean finished
  · obtain ⟨after, again⟩ := kept.process (safe running) (fun _ => blocks) processed
    obtain ⟨same, clean⟩ := again rfl
    rcases outcome with ⟨-, rfl⟩ | ⟨answered, finished⟩
    · exact ⟨after, same⟩
    · obtain ⟨done, actions⟩ := after.finishJob (clean answered) finished
      exact ⟨done, actions.trans same⟩

theorem Kept.hangingJobs {moment : Nat → Moment} {index : Nat} {server server' : Server}
    {actions left : List Action} {jobs : List Job} (kept : Kept server)
    (safe : SafeJobs moment index server actions) (blocks : AllBlocking actions)
    (ran : hangingJobs moment index server actions = .ok (server', left, jobs)) :
    Kept server' := by
  induction actions generalizing index server server' left jobs with
  | nil =>
    cases ran
    exact kept
  | cons action rest inductionHypothesis =>
    obtain ⟨next, reply, later, done, visited, others, -, -⟩ := hangingJobs_cons_inv ran
    obtain ⟨after, -⟩ := kept.visit safe.1 (blocks action List.mem_cons_self) visited
    exact inductionHypothesis after (safe.2 next reply visited)
      (fun other member => blocks other (List.mem_cons_of_mem _ member)) others

/-! ### Runs -/

theorem Kept.step {world world' : World} {event : Event} {sent : List Sent}
    (kept : Kept world.server) (careful : Careful world event)
    (ran : world.step event = .ok (world', sent)) : Kept world'.server := by
  cases event with
  | accept fd =>
    cases ran
    exact kept
  | hangUp fd =>
    cases ran
    exact kept
  | input fd moment chunk =>
    obtain ⟨server, reply, read, rfl, -⟩ := step_input_inv ran
    rw [Server.input] at read
    obtain ⟨ret, processed, -⟩ := serve_inv read
    have buffered : Kept
        { world.server with currRequest := world.server.currRequest.overlay chunk } :=
      ⟨kept.sound, kept.positive, kept.owned, kept.time, kept.area, kept.pending⟩
    exact (buffered.process careful (fun old => by cases old) processed).1
  | heartBeat moment =>
    obtain ⟨server, jobs, visited, rfl, -⟩ := step_heartBeat_inv ran
    obtain ⟨last, left, others, rfl⟩ := doHangingJobs_inv visited
    have after := kept.hangingJobs careful kept.pending others
    obtain ⟨sub, -⟩ := hangingJobs_actions others
    exact ⟨after.sound, after.positive, after.owned, after.time, after.area,
      fun action member => kept.pending action (sub.subset member)⟩

theorem kept_of_init {env : Env} {curr : Reply} {buffer : Buffer} {server : Server}
    (init : serverInit env curr buffer = some server) : Kept server := by
  obtain ⟨timeBss, created, rfl⟩ := Option.map_eq_some_iff.mp init
  have area : timeBss.size = timeLen := by
    rw [bssCreateEmpty] at created
    split at created
    · cases created
      rfl
    · cases created
  refine ⟨sound_create True (by decide), Nat.succ_pos _, ⟨by simp, by simp, List.nodup_nil, ?_,
    rfl, List.Pairwise.nil, ?_, fun _ elem member => ?_⟩, bssCreateEmpty_id created, area, ?_⟩
  · intro id inside
    cases inside
  · intro elem member
    cases member
  · cases member
  · intro action member
    cases member

theorem runs_kept {world : World} {past : List Sent} (run : Runs Careful world past) :
    Kept world.server := by
  induction run with
  | start init => exact kept_of_init init
  | step event before possible careful ran inductionHypothesis =>
    exact inductionHypothesis.step careful ran

/-- In a run without the two steps every buffer is released at most once, and none is touched after
it is released. -/
theorem runs_releasedOnce {world : World} {past : List Sent} (run : Runs Careful world past) :
    world.server.sh.released.Nodup ∧ world.server.sh.stale = [] :=
  ⟨(runs_kept run).owned.releasedOnce, (runs_kept run).owned.untouched⟩

/-- A refusal is safe while the array left over has nothing to release. -/
theorem Kept.safe_of_quiet {server : Server} (kept : Kept server) (quiet : Quiet server.sh.elems)
    {moment : Moment} {request : Request} : server.Safe moment true request := by
  rw [Server.Safe]
  split
  · trivial
  · intro old
    cases old
  · split
    · intro old
      cases old
    · trivial
    · exact fun _ _ => ⟨kept.owned.quiet quiet, fun old => by cases old⟩

/-- A request for the value of `k`, in an array. -/
def lookChunk : Bytes := (textRequest "mget" "k" (by decide)).wire

/-- A blocking request without a key. -/
def bareChunk : Bytes := (textRequest "blpop" "1" (by decide)).wire

/-- A client pushes to `k` and pops from it, waits for `k` and is still waiting at the next
heart-beat. It then has the array filled with a nil and is refused another wait. -/
def poppedEvents : List Event :=
  [.accept 5, .input 5 Moment.plain pushChunk, .input 5 Moment.plain popChunk,
    .input 5 Moment.plain popChunk, .heartBeat fun _ => Moment.plain,
    .input 5 Moment.plain lookChunk, .input 5 Moment.plain bareChunk]

/-- Where the first of them lead. -/
def poppedWorld (steps : Nat) : World :=
  ((World.plain.run (poppedEvents.take steps)).getD (World.plain, [])).1

theorem safe_of_waits {server : Server} {moment : Moment} {isNew : Bool} {request : Request}
    {command : Command} {args : List Bss} {timeout : Option Int}
    (read : readRequest moment.env server.next request = .calls command args timeout)
    (nothing : command.func.listing (handlerEnv moment.env server.next) server.keyDict args = none)
    (waits : command.type = blocked → command.func.Waits server.keyDict args) :
    server.Safe moment isNew request := by
  rw [Server.Safe, read]
  simp only [nothing]
  exact fun block present => absurd (waits block) present

theorem runs_releasedOnce_popped :
    ∃ past, Runs Careful (poppedWorld 7) past ∧
      ((poppedWorld 7).server.sh.released.Nodup ∧ (poppedWorld 7).server.sh.stale = []) := by
  have init : serverInit Env.plain ⟨0, 0, 0, []⟩ (fun _ => 0) = some Server.plain := rfl
  have start : ∃ past, Runs Careful World.plain past := ⟨_, .start init⟩
  have accepted : ∃ past, Runs Careful (poppedWorld 1) past :=
    Runs.extend (.accept 5) start rfl trivial rfl
  have pushes : Careful (poppedWorld 1) (.input 5 Moment.plain pushChunk) := by
    rw [Careful]
    exact safe_of_waits rfl rfl fun block => absurd block (by decide)
  have pushed : ∃ past, Runs Careful (poppedWorld 2) past :=
    Runs.extend (.input 5 Moment.plain pushChunk) accepted rfl pushes rfl
  have pops : Careful (poppedWorld 2) (.input 5 Moment.plain popChunk) := by
    intro old
    cases old
  have popped : ∃ past, Runs Careful (poppedWorld 3) past :=
    Runs.extend (.input 5 Moment.plain popChunk) pushed rfl pops rfl
  have waits : Careful (poppedWorld 3) (.input 5 Moment.plain popChunk) := by
    rw [Careful]
    exact safe_of_waits rfl rfl fun _ => ⟨List.cons_ne_nil _ _, rfl⟩
  have waited : ∃ past, Runs Careful (poppedWorld 4) past :=
    Runs.extend (.input 5 Moment.plain popChunk) popped rfl waits rfl
  have beats : Careful (poppedWorld 4) (.heartBeat fun _ => Moment.plain) := by
    refine ⟨fun _ => ?_, fun _ _ _ => trivial⟩
    exact safe_of_waits rfl rfl fun _ => ⟨List.cons_ne_nil _ _, rfl⟩
  have beaten : ∃ past, Runs Careful (poppedWorld 5) past :=
    Runs.extend (.heartBeat fun _ => Moment.plain) waited rfl beats rfl
  have looks : Careful (poppedWorld 5) (.input 5 Moment.plain lookChunk) := trivial
  obtain ⟨earlier, looked⟩ : ∃ past, Runs Careful (poppedWorld 6) past :=
    Runs.extend (.input 5 Moment.plain lookChunk) beaten rfl looks rfl
  have shown : (poppedWorld 6).server.sh.elems = [⟨none, strNil⟩] := rfl
  have quiet : Quiet (poppedWorld 6).server.sh.elems := by
    rw [shown]
    exact Or.inl fun elem member => by rw [List.mem_singleton.mp member]; rfl
  have refused : Careful (poppedWorld 6) (.input 5 Moment.plain bareChunk) := by
    rw [Careful]
    exact (runs_kept looked).safe_of_quiet quiet
  obtain ⟨past, run⟩ : ∃ past, Runs Careful (poppedWorld 7) past :=
    Runs.extend (.input 5 Moment.plain bareChunk) ⟨earlier, looked⟩ rfl refused rfl
  exact ⟨past, run, runs_releasedOnce run⟩

/-- A blocked `BLPOP` that is satisfied at a heart-beat: its array is encoded twice. -/
theorem runs_releasedTwice :
    ∃ (world : World) (past : List Sent), Runs (fun _ _ => True) world past ∧
      ¬ (world.server.sh.released.Nodup ∧ world.server.sh.stale = []) := by
  have init : serverInit Env.plain ⟨0, 0, 0, []⟩ (fun _ => 0) = some Server.plain := rfl
  have ran : World.plain.run patientEvents = some (patientRun.1, patientRun.2) := rfl
  refine ⟨patientRun.1, _, runs_of_run (.start init) (fun _ _ _ => trivial) ran, fun kept => ?_⟩
  have touched : patientRun.1.server.sh.stale ≠ [] := List.cons_ne_nil _ _
  exact touched kept.2

end PseudoRedis
