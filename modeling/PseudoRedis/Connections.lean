/-
This file puts the server among its connections. The kernel gives each connection a
descriptor that no open one has, and takes it back when the client hangs up; the server
names the client of a blocked request by the descriptor and forgets nothing when one is
closed. So what a blocked request is sent reaches the connection it came from as long as
no connection with a blocked request hangs up, and may reach another one otherwise.
-/

import PseudoRedis.Framing

namespace PseudoRedis

/-! ### The server among its connections -/

/-- The server, the connection behind each open descriptor, and the number of connections so
far. -/
structure World where
  server : Server
  conn : Nat → Option Nat
  born : Nat

inductive Event where
  /-- `accept_connection` accepts one connection -/
  | accept (fd : Nat)
  /-- a `read` of `process_in_data` returns something -/
  | input (fd : Nat) (moment : Moment) (chunk : Bytes)
  /-- a `read` of `process_in_data` returns nothing, so the descriptor is closed -/
  | hangUp (fd : Nat)
  | heartBeat (moment : Nat → Moment)

/-- What is written to a descriptor, with the connection behind it. `origin` is the connection that
issued the request if the request was blocked. -/
structure Sent where
  fd : Nat
  behind : Option Nat
  origin : Option Nat
  data : Bytes

/-- A new connection has a descriptor that is not in use; the other events need one that is. -/
def Event.possible (world : World) : Event → Bool
  | .accept fd => (world.conn fd).isNone
  | .input fd _ _ => (world.conn fd).isSome
  | .hangUp fd => (world.conn fd).isSome
  | .heartBeat _ => true

/-- The table of descriptors with another connection, or none, behind one of them. -/
def World.bind (world : World) (fd : Nat) (conn : Option Nat) : World :=
  { world with conn := fun other => if other = fd then conn else world.conn other }

/-- What `do_hanging_jobs` sends for one action. -/
def World.jobSent (world : World) (job : Job) : List Sent :=
  job.reply.toList.map fun data =>
    ⟨job.action.request.clientId, world.conn job.action.request.clientId,
      some job.action.origin, data⟩

def World.step (world : World) : Event → Except Stop (World × List Sent)
  | .accept fd =>
      .ok ({ world.bind fd (some world.born) with born := world.born + 1 },
        [⟨fd, some world.born, none, littleEndian32 fd⟩])
  | .input fd moment chunk =>
      match world.server.input fd ((world.conn fd).getD 0) moment chunk with
      | .error stop => .error stop
      | .ok (server, reply) =>
          .ok ({ world with server },
            reply.toList.map fun data => ⟨fd, world.conn fd, none, data⟩)
  | .hangUp fd => .ok (world.bind fd none, [])
  | .heartBeat moment =>
      match doHangingJobs moment world.server with
      | .error stop => .error stop
      | .ok (server, jobs) => .ok ({ world with server }, jobs.flatMap world.jobSent)

theorem step_input_inv {world world' : World} {fd : Nat} {moment : Moment} {chunk : Bytes}
    {sent : List Sent} (ran : world.step (.input fd moment chunk) = .ok (world', sent)) :
    ∃ server reply,
      world.server.input fd ((world.conn fd).getD 0) moment chunk = .ok (server, reply) ∧
        world' = { world with server } ∧
        sent = reply.toList.map fun data => ⟨fd, world.conn fd, none, data⟩ := by
  rw [World.step] at ran
  split at ran
  · cases ran
  · rename_i server reply read
    cases ran
    exact ⟨server, reply, read, rfl, rfl⟩

/-- A request that does not block is answered on the descriptor it came from. -/
theorem step_input_answered {world : World} {fd : Nat} {moment : Moment} {chunk : Bytes}
    {dict : Dict Obj} {sh : Shared} {ret : Int}
    (ran : processRequest moment.env world.server.next world.server.keyDict true
      ((world.server.currRequest.overlay chunk).request fd) world.server.sh = .ok ⟨dict, sh, ret⟩)
    (goesOn : ret ≠ eBlocked) :
    world.step (.input fd moment chunk) =
      .ok ({ world with server := { world.server with
              currRequest := world.server.currRequest.overlay chunk
              keyDict := dict
              sh
              next := world.server.next + maxArgs + 2 } },
        [⟨fd, world.conn fd, none, sh.curr.wire⟩]) := by
  simp only [World.step, Server.input, Server.serve, Server.process, ran, goesOn, and_false,
    if_false]
  rfl

theorem step_heartBeat_inv {world world' : World} {moment : Nat → Moment} {sent : List Sent}
    (ran : world.step (.heartBeat moment) = .ok (world', sent)) :
    ∃ server jobs, doHangingJobs moment world.server = .ok (server, jobs) ∧
      world' = { world with server } ∧ sent = jobs.flatMap world.jobSent := by
  rw [World.step] at ran
  split at ran
  · cases ran
  · rename_i server jobs visited
    cases ran
    exact ⟨server, jobs, visited, rfl, rfl⟩

/-- The worlds that events lead to, if every event is allowed where it happens, and all that was
sent on the way. -/
inductive Runs (allowed : World → Event → Prop) : World → List Sent → Prop
  | start {env : Env} {curr : Reply} {buffer : Buffer} {server : Server}
      (init : serverInit env curr buffer = some server) :
      Runs allowed ⟨server, fun _ => none, 0⟩ []
  | step {world world' : World} {past sent : List Sent} (event : Event)
      (before : Runs allowed world past) (possible : event.possible world = true)
      (fine : allowed world event) (ran : world.step event = .ok (world', sent)) :
      Runs allowed world' (past ++ sent)

/-! ### What the steps of the server do to the pending list -/

/-- A request is put in front of the list, with its descriptor and its connection, or the list
stays. -/
theorem process_actions {server server' : Server} {moment : Moment} {origin : Nat} {isNew : Bool}
    {request : Request} {ret : Int}
    (ran : server.process moment origin isNew request = .ok (server', ret)) :
    ∀ action ∈ server'.actions, action ∈ server.actions ∨
      isNew = true ∧ action.request.clientId = request.clientId ∧ action.origin = origin := by
  rw [Server.process] at ran
  split at ran
  · cases ran
  · rename_i result served
    cases ran
    intro action member
    by_cases waits : isNew = true ∧ result.ret = eBlocked
    · simp only [if_pos waits, addtoPending] at member
      rcases List.mem_cons.mp member with rfl | later
      · exact Or.inr ⟨waits.1, rfl, rfl⟩
      · exact Or.inl later
    · simp only [if_neg waits] at member
      exact Or.inl member

theorem input_actions {server server' : Server} {moment : Moment} {fd origin : Nat}
    {chunk : Bytes} {reply : Option Bytes}
    (ran : server.input fd origin moment chunk = .ok (server', reply)) :
    ∀ action ∈ server'.actions, action ∈ server.actions ∨
      action.request.clientId = fd ∧ action.origin = origin := by
  rw [Server.input] at ran
  obtain ⟨ret, processed, -⟩ := serve_inv ran
  intro action member
  rcases process_actions processed action member with old | ⟨-, client, conn⟩
  · exact Or.inl old
  · exact Or.inr ⟨client, conn⟩

/-- A heart-beat visits every action and keeps some of them. -/
theorem hangingJobs_actions {moment : Nat → Moment} {index : Nat} {server server' : Server}
    {actions left : List Action} {jobs : List Job}
    (ran : hangingJobs moment index server actions = .ok (server', left, jobs)) :
    left.Sublist actions ∧ jobs.map Job.action = actions := by
  induction actions generalizing index server server' left jobs with
  | nil =>
    cases ran
    exact ⟨List.Sublist.refl _, rfl⟩
  | cons action rest inductionHypothesis =>
    obtain ⟨next, reply, later, done, -, others, rfl, rfl⟩ := hangingJobs_cons_inv ran
    obtain ⟨sub, all⟩ := inductionHypothesis others
    refine ⟨?_, ?_⟩
    · split
      · exact sub.cons action
      · exact sub.cons_cons action
    · rw [List.map_cons, all]

theorem doHangingJobs_actions {moment : Nat → Moment} {server server' : Server}
    {jobs : List Job} (ran : doHangingJobs moment server = .ok (server', jobs)) :
    (∀ action ∈ server'.actions, action ∈ server.actions) ∧
      ∀ job ∈ jobs, job.action ∈ server.actions := by
  obtain ⟨last, left, visited, rfl⟩ := doHangingJobs_inv ran
  obtain ⟨sub, all⟩ := hangingJobs_actions visited
  refine ⟨fun action member => sub.subset member, fun job member => ?_⟩
  rw [← all]
  exact List.mem_map_of_mem member

/-! ### Replies reach the connection of the request -/

/-- No connection with a blocked request hangs up. -/
def Patient (world : World) (event : Event) : Prop :=
  ∀ fd, event = .hangUp fd → ∀ action ∈ world.server.actions, action.request.clientId ≠ fd

/-- The connection of every blocked request is behind the descriptor of the request. -/
def World.Attached (world : World) : Prop :=
  ∀ action ∈ world.server.actions, world.conn action.request.clientId = some action.origin

/-- What is sent for a blocked request goes to the connection it came from. -/
def Sent.Right (sent : Sent) : Prop :=
  ∀ origin, sent.origin = some origin → sent.behind = some origin

theorem Attached.step {world world' : World} {event : Event} {sent : List Sent}
    (attached : world.Attached) (possible : event.possible world = true)
    (patient : Patient world event) (ran : world.step event = .ok (world', sent)) :
    world'.Attached ∧ ∀ one ∈ sent, one.Right := by
  cases event with
  | accept fd =>
    cases ran
    refine ⟨fun action member => ?_, fun one member => ?_⟩
    · have here := attached action member
      have other : action.request.clientId ≠ fd := by
        rintro same
        have free : world.conn fd = none := Option.isNone_iff_eq_none.mp possible
        rw [same, free] at here
        cases here
      exact (if_neg other).trans here
    · rw [List.mem_singleton.mp member]
      rintro origin ⟨⟩
  | input fd moment chunk =>
    obtain ⟨server, reply, read, rfl, rfl⟩ := step_input_inv ran
    refine ⟨fun action member => ?_, fun one member => ?_⟩
    · rcases input_actions read action member with old | ⟨client, conn⟩
      · exact attached action old
      · obtain ⟨number, behind⟩ := Option.isSome_iff_exists.mp possible
        have here : world.conn fd = some action.origin := by
          rw [conn, behind, Option.getD_some]
        rw [← client] at here
        exact here
    · obtain ⟨data, -, rfl⟩ := List.mem_map.mp member
      rintro origin ⟨⟩
  | hangUp fd =>
    cases ran
    refine ⟨fun action member => ?_, fun one member => ?_⟩
    · exact (if_neg (patient fd rfl action member)).trans (attached action member)
    · cases member
  | heartBeat moment =>
    obtain ⟨server, jobs, visited, rfl, rfl⟩ := step_heartBeat_inv ran
    obtain ⟨kept, from_list⟩ := doHangingJobs_actions visited
    refine ⟨fun action member => attached action (kept action member), fun one member => ?_⟩
    obtain ⟨job, inJobs, inSent⟩ := List.mem_flatMap.mp member
    obtain ⟨data, -, rfl⟩ := List.mem_map.mp inSent
    rintro origin ⟨⟩
    exact attached job.action (from_list job inJobs)

/-- In a run in which no connection with a blocked request hangs up, the connection of every
blocked request stays open, and what a blocked request is sent goes there. -/
theorem runs_attached {world : World} {past : List Sent} (run : Runs Patient world past) :
    world.Attached ∧ ∀ sent ∈ past, sent.Right := by
  induction run with
  | start init =>
    refine ⟨fun action member => ?_, fun one member => by cases member⟩
    obtain ⟨timeBss, -, rfl⟩ := Option.map_eq_some_iff.mp init
    cases member
  | step event before possible patient ran inductionHypothesis =>
    obtain ⟨attached, right⟩ := Attached.step inductionHypothesis.1 possible patient ran
    refine ⟨attached, fun one member => ?_⟩
    rcases List.mem_append.mp member with old | new
    · exact inductionHypothesis.2 one old
    · exact right one new

/-! ### A descriptor that is used again -/

/-- The events one after the other, as long as each is possible and stops nothing. -/
def World.run : World → List Event → Option (World × List Sent)
  | world, [] => some (world, [])
  | world, event :: rest =>
      if event.possible world then
        match world.step event with
        | .error _ => none
        | .ok (world, sent) => (world.run rest).map fun last => (last.1, sent ++ last.2)
      else none

theorem runs_of_run {allowed : World → Event → Prop} {world world' : World}
    {past sent : List Sent} {events : List Event} (before : Runs allowed world past)
    (fine : ∀ event ∈ events, ∀ world, allowed world event)
    (ran : world.run events = some (world', sent)) : Runs allowed world' (past ++ sent) := by
  induction events generalizing world past sent with
  | nil =>
    cases ran
    rw [List.append_nil]
    exact before
  | cons event rest inductionHypothesis =>
    rw [World.run] at ran
    split at ran
    · rename_i possible
      split at ran
      · cases ran
      · rename_i next first stepped
        obtain ⟨last, later, same⟩ := Option.map_eq_some_iff.mp ran
        cases same
        have after := Runs.step event before possible (fine event List.mem_cons_self world) stepped
        rw [← List.append_assoc]
        exact inductionHypothesis after
          (fun other member => fine other (List.mem_cons_of_mem _ member)) later
    · cases ran

/-- One more event of a run, whatever is sent at it. -/
theorem Runs.extend {allowed : World → Event → Prop} {world world' : World} (event : Event)
    (before : ∃ past, Runs allowed world past) (possible : event.possible world = true)
    (fine : allowed world event)
    (ran : (world.step event).toOption.map Prod.fst = some world') :
    ∃ past, Runs allowed world' past := by
  obtain ⟨past, run⟩ := before
  cases stepped : world.step event with
  | error stop =>
    rw [stepped] at ran
    cases ran
  | ok outcome =>
    rw [stepped] at ran
    cases ran
    exact ⟨_, run.step event possible fine stepped⟩

/-- The server in plain surroundings, before any connection. -/
def World.plain : World := ⟨Server.plain, fun _ => none, 0⟩

/-- A request to pop from `k`, with no timeout. -/
def popChunk : Bytes := (textRequest "blpop" "k 0" (by decide)).wire

/-- A request to push `x` to `k`. -/
def pushChunk : Bytes := (textRequest "rpush" "k x" (by decide)).wire

/-- Client 0 waits for `k` and hangs up; client 1 gets its descriptor and pushes to `k`. -/
def reusedEvents : List Event :=
  [.accept 5, .input 5 Moment.plain popChunk, .hangUp 5, .accept 5,
    .input 5 Moment.plain pushChunk, .heartBeat fun _ => Moment.plain]

/-- What client 0 waited for is sent to client 1. -/
theorem runs_not_right :
    ∃ (world : World) (past : List Sent), Runs (fun _ _ => True) world past ∧
      ∃ sent ∈ past, ¬ sent.Right := by
  have init : serverInit Env.plain ⟨0, 0, 0, []⟩ (fun _ => 0) = some Server.plain := rfl
  have ran : ∃ world first second third data, World.plain.run reusedEvents =
      some (world, [first, second, third, ⟨5, some 1, some 0, data⟩]) := ⟨_, _, _, _, _, rfl⟩
  obtain ⟨world, first, second, third, data, ran⟩ := ran
  have run := runs_of_run (.start init) (fun _ _ _ => trivial) ran
  refine ⟨world, _, run, ⟨5, some 1, some 0, data⟩, ?_, fun right => ?_⟩
  · exact List.mem_append_right _ (List.mem_of_getLast? rfl)
  · have same : some 1 = some 0 := right 0 rfl
    exact absurd same (by decide)

/-- A client waits for `k`, and another one pushes to it. -/
def patientEvents : List Event :=
  [.accept 5, .input 5 Moment.plain popChunk, .accept 6, .input 6 Moment.plain pushChunk,
    .heartBeat fun _ => Moment.plain]

/-- Where they lead, and what is sent on the way. -/
def patientRun : World × List Sent := (World.plain.run patientEvents).getD (World.plain, [])

theorem runs_attached_push :
    Runs Patient patientRun.1 patientRun.2 ∧
      (patientRun.1.Attached ∧ ∀ sent ∈ patientRun.2, sent.Right) := by
  have init : serverInit Env.plain ⟨0, 0, 0, []⟩ (fun _ => 0) = some Server.plain := rfl
  have ran : World.plain.run patientEvents = some (patientRun.1, patientRun.2) := rfl
  have patient : ∀ event ∈ patientEvents, ∀ world, Patient world event := by
    intro event member world fd same
    rw [same] at member
    exact absurd member (by simp [patientEvents])
  have run := runs_of_run (.start init) patient ran
  rw [List.nil_append] at run
  exact ⟨run, runs_attached run⟩

end PseudoRedis
