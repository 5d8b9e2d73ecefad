/-
This file embeds the event loop of `server.c`: reading requests from a connection, the
list of blocked requests, and `do_hanging_jobs`, which tries them again on every
heart-beat. A step that stops with a fault ends the program.

What the clock says, the results of floating point on times and the surroundings of a
handler are given with each step. An action remembers the connection its request came
from; no function of the server reads that.
-/

import PseudoRedis.Request

namespace PseudoRedis

/-! ### The state -/

structure Timeval where
  sec : Int
  usec : Int

/-- What one step takes from outside: the surroundings of a handler, the time of day, whether
`interval - timeout >= 0` for the `float` between two times, and how `"(%.2f)"` prints it. -/
structure Moment where
  env : Env
  now : Timeval
  reached : Timeval → Timeval → Int → Bool
  sprintfTime : Timeval → Timeval → Bytes

/-- A blocked request in the pending list. -/
structure Action where
  request : Request
  tv : Timeval
  timeout : Int
  origin : Nat

/-- The memory `_curr_request` points to. -/
abbrev Buffer := Nat → UInt8

/-- The global variables, with the first allocation that is not made yet. -/
structure Server where
  keyDict : Dict Obj
  sh : Shared
  currRequest : Buffer
  actions : List Action
  timeBss : Bss
  next : Nat

def timeLen : Nat := 32

/-- The allocation of `_time_bss`. -/
def timeId : Nat := 0

/-- The reply and the request are as `malloc` leaves them; the arrays are global and so zero. -/
def serverInit (env : Env) (curr : Reply) (currRequest : Buffer) : Option Server :=
  (bssCreateEmpty env timeId timeLen).map fun timeBss =>
    { keyDict := dictCreate initDictSize
      sh :=
        { curr
          replyArr := fun _ => none
          arrEleType := fun _ => 0
          rplyArrLen := 0
          released := []
          stale := [] }
      currRequest
      actions := []
      timeBss
      next := timeId + 1 }

/-- A moment with plain surroundings, at which no timeout is reached. -/
def Moment.plain : Moment where
  env := Env.plain
  now := ⟨0, 0⟩
  reached := fun _ _ _ => false
  sprintfTime := fun _ _ => bytes "(0.00)"

/-- The server started in plain surroundings, in memory full of zeros. -/
def Server.plain : Server where
  keyDict := dictCreate initDictSize
  sh := Shared.holding []
  currRequest := fun _ => 0
  actions := []
  timeBss := ⟨timeId, 0, timeLen, List.replicate (timeLen + 1) 0⟩
  next := timeId + 1

example : serverInit Env.plain ⟨0, 0, 0, []⟩ (fun _ => 0) = some Server.plain := rfl

/-! ### One request -/

/-- The copy made for the pending list. -/
def Request.dup (request : Request) : Request where
  command := request.command
  clientId := request.clientId
  len := request.len
  data := request.data.take request.len
  inBuffer := Nat.le_trans (List.length_take_le' _ _) request.inBuffer

/-- The new head of the pending list. -/
def addtoPending (moment : Moment) (origin : Nat) (request : Request) (timeout : Option Int)
    (actions : List Action) : List Action :=
  ⟨request.dup, moment.now, toInt32 (timeout.getD 0), origin⟩ :: actions

def Reading.timeout : Reading → Option Int
  | .calls _ _ timeout => timeout
  | _ => none

/-- `process_request` on the global variables. -/
def Server.process (server : Server) (moment : Moment) (origin : Nat) (isNew : Bool)
    (request : Request) : Except Stop (Server × Int) :=
  match processRequest moment.env server.next server.keyDict isNew request server.sh with
  | .error stop => .error stop
  | .ok result =>
      .ok ({ server with
             keyDict := result.dict
             sh := result.sh
             actions :=
               if isNew = true ∧ result.ret = eBlocked then
                 addtoPending moment origin request
                   (readRequest moment.env server.next request).timeout server.actions
               else server.actions
             next := server.next + maxArgs + 2 }, result.ret)

/-! ### Reading -/

/-- What `read` does to the buffer. -/
def Buffer.overlay (buffer : Buffer) (chunk : Bytes) : Buffer := fun index =>
  chunk.getD index (buffer index)

def Buffer.slice (buffer : Buffer) (offset count : Nat) : Bytes :=
  (List.range count).map fun index => buffer (offset + index)

/-- The number in four bytes of the buffer. -/
def Buffer.word (buffer : Buffer) (offset : Nat) : Nat :=
  (readLittleEndian32 (buffer.slice offset 4)).getD 0

/-- The request in the buffer after its `client_id` is set; nothing reads these four bytes of the
buffer before they are set again. -/
def Buffer.request (buffer : Buffer) (fd : Nat) : Request where
  command := buffer.slice 0 16
  clientId := fd
  len := buffer.word 20
  data := buffer.slice 24 (min (buffer.word 20) inBufSize)
  inBuffer := by
    rw [Buffer.slice, List.length_map, List.length_range]
    exact Nat.min_le_right _ _

/-- `process_request` and, if the request is not blocked, `send_reply`. -/
def Server.serve (server : Server) (origin : Nat) (moment : Moment) (request : Request) :
    Except Stop (Server × Option Bytes) :=
  match server.process moment origin true request with
  | .error stop => .error stop
  | .ok (server, ret) => .ok (server, if ret = eBlocked then none else some server.sh.curr.wire)

/-- One `read` that returned something, and what follows it. -/
def Server.input (server : Server) (fd origin : Nat) (moment : Moment) (chunk : Bytes) :
    Except Stop (Server × Option Bytes) :=
  { server with currRequest := server.currRequest.overlay chunk }.serve origin moment
    ((server.currRequest.overlay chunk).request fd)

/-- The loop over all `read`s that return something, and the replies sent. -/
def processInData (fd origin : Nat) : Server → List (Moment × Bytes) →
    Except Stop (Server × List Bytes)
  | server, [] => .ok (server, [])
  | server, (moment, chunk) :: rest =>
      match server.input fd origin moment chunk with
      | .error stop => .error stop
      | .ok (server, reply) =>
          match processInData fd origin server rest with
          | .error stop => .error stop
          | .ok (server, replies) => .ok (server, reply.toList ++ replies)

/-! ### The heart-beat -/

/-- `bss_set(_time_bss, ..)` of a text that `sprintf` wrote to an area of `TIME_LEN` bytes. -/
def Server.setTime (server : Server) (env : Env) (strtm : Bytes) : Except Fault Bss :=
  if timeLen ≤ strtm.length then .error .outOfBounds
  else
    match bssSet env server.next server.timeBss strtm with
    | .error stop => .error stop
    | .ok bss => .ok (bss.getD server.timeBss)

/-- What is done with an action that is not going to wait any longer. -/
def Server.finishJob (server : Server) (moment : Moment) (action : Action) :
    Except Stop (Server × Option Bytes) :=
  match server.setTime moment.env (moment.sprintfTime moment.now action.tv) with
  | .error stop => .error (.fault stop)
  | .ok bss =>
      match createArrReply moment.env
          (addtoReplyArr (server.sh.overwrite bss) (some bss) (strNotQuoted ||| strNi)).1
          rplyArr with
      | .error stop => .error (.fault stop)
      | .ok (sh, _) => .ok ({ server with sh, timeBss := bss }, some sh.curr.wire)

/-- The timeout of the action is reached; one of zero never is. -/
def Action.expired (action : Action) (moment : Moment) : Prop :=
  action.timeout ≠ 0 ∧ moment.reached moment.now action.tv action.timeout = true

instance (action : Action) (moment : Moment) : Decidable (action.expired moment) :=
  inferInstanceAs (Decidable (_ ∧ _))

/-- The visit of one action: the reply sent for it, if it is done. -/
def Server.visit (server : Server) (moment : Moment) (action : Action) :
    Except Stop (Server × Option Bytes) :=
  if action.expired moment then
    { server with
      sh := (addtoReplyArr (resetReplyArr server.sh) none (strNil ||| strNi)).1 }.finishJob
        moment action
  else
    match server.process moment action.origin false action.request with
    | .error stop => .error stop
    | .ok (server, ret) =>
        if ret = eBlocked then .ok (server, none) else server.finishJob moment action

/-- An action that was visited, and the reply sent to the descriptor of its request. -/
structure Job where
  action : Action
  reply : Option Bytes

/-- The visits of the actions, each at its own moment: the actions that stay and what was done. -/
def hangingJobs (moment : Nat → Moment) (index : Nat) : Server → List Action →
    Except Stop (Server × List Action × List Job)
  | server, [] => .ok (server, [], [])
  | server, action :: rest =>
      match server.visit (moment index) action with
      | .error stop => .error stop
      | .ok (server, reply) =>
          match hangingJobs moment (index + 1) server rest with
          | .error stop => .error stop
          | .ok (server, left, jobs) =>
              .ok (server, if reply.isSome then left else action :: left, ⟨action, reply⟩ :: jobs)

def doHangingJobs (moment : Nat → Moment) (server : Server) :
    Except Stop (Server × List Job) :=
  match hangingJobs moment 0 server server.actions with
  | .error stop => .error stop
  | .ok (server, left, jobs) => .ok ({ server with actions := left }, jobs)

/-! ### Steps that came to an end -/

variable {server server' : Server} {action : Action} {reply : Option Bytes}

theorem serve_inv {origin : Nat} {moment : Moment} {request : Request}
    (ran : server.serve origin moment request = .ok (server', reply)) :
    ∃ ret, server.process moment origin true request = .ok (server', ret) ∧
      reply = if ret = eBlocked then none else some server'.sh.curr.wire := by
  rw [Server.serve] at ran
  split at ran
  · cases ran
  · rename_i next ret processed
    cases ran
    exact ⟨ret, processed, rfl⟩

/-- The time is set, added to the array, and the array is encoded. -/
theorem finishJob_inv {moment : Moment}
    (ran : server.finishJob moment action = .ok (server', reply)) :
    ∃ bss sh ret, server.setTime moment.env (moment.sprintfTime moment.now action.tv) = .ok bss ∧
      createArrReply moment.env
        (addtoReplyArr (server.sh.overwrite bss) (some bss) (strNotQuoted ||| strNi)).1 rplyArr =
          .ok (sh, ret) ∧ server' = { server with sh, timeBss := bss } := by
  rw [Server.finishJob] at ran
  split at ran
  · cases ran
  · rename_i bss written
    split at ran
    · cases ran
    · rename_i sh ret built
      cases ran
      exact ⟨bss, sh, ret, written, built, rfl⟩

/-- An action is done because its timeout is reached or because its request no longer blocks, or it
stays. -/
theorem visit_inv {moment : Moment}
    (ran : server.visit moment action = .ok (server', reply)) :
    (action.expired moment ∧ { server with
        sh := (addtoReplyArr (resetReplyArr server.sh) none (strNil ||| strNi)).1 }.finishJob
          moment action = .ok (server', reply)) ∨
      ¬ action.expired moment ∧ ∃ next ret,
        server.process moment action.origin false action.request = .ok (next, ret) ∧
          (ret = eBlocked ∧ server' = next ∨
            ret ≠ eBlocked ∧ next.finishJob moment action = .ok (server', reply)) := by
  rw [Server.visit] at ran
  split at ran
  · rename_i expired
    exact Or.inl ⟨expired, ran⟩
  · rename_i running
    split at ran
    · cases ran
    · rename_i next ret processed
      refine Or.inr ⟨running, next, ret, processed, ?_⟩
      split at ran
      · rename_i blocked
        cases ran
        exact Or.inl ⟨blocked, rfl⟩
      · rename_i answered
        exact Or.inr ⟨answered, ran⟩

theorem hangingJobs_cons_inv {moment : Nat → Moment} {index : Nat} {rest left : List Action}
    {jobs : List Job}
    (ran : hangingJobs moment index server (action :: rest) = .ok (server', left, jobs)) :
    ∃ next reply later done, server.visit (moment index) action = .ok (next, reply) ∧
      hangingJobs moment (index + 1) next rest = .ok (server', later, done) ∧
      left = (if reply.isSome then later else action :: later) ∧
      jobs = ⟨action, reply⟩ :: done := by
  rw [hangingJobs] at ran
  split at ran
  · cases ran
  · rename_i next reply visited
    split at ran
    · cases ran
    · rename_i last later done others
      cases ran
      exact ⟨next, reply, later, done, visited, others, rfl, rfl⟩

theorem doHangingJobs_inv {moment : Nat → Moment} {jobs : List Job}
    (ran : doHangingJobs moment server = .ok (server', jobs)) :
    ∃ last left, hangingJobs moment 0 server server.actions = .ok (last, left, jobs) ∧
      server' = { last with actions := left } := by
  rw [doHangingJobs] at ran
  split at ran
  · cases ran
  · rename_i last left done visited
    cases ran
    exact ⟨last, left, visited, rfl⟩

end PseudoRedis
