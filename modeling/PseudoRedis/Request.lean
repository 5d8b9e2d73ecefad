/-
This file embeds the request half of `server.c`: `parse_args`, which cuts the request
string into strings, and `process_request`, which finds the command, runs its handler
and turns what the handler returned into the reply.

A request is given the allocations it can make: its arguments take the first ones from
`next` on, its handler those after the largest number of arguments. The call of
`addto_pending` is left to the caller: it happens if and only if the run returns
`E_BLOCKED` for a new request, with the timeout of the `Reading`.
-/

import PseudoRedis.Commands.Summary

namespace PseudoRedis

/-! ### Requests -/

def inBufSize : Nat := 1024 * 1024

/-- `sizeof(request_t)`. -/
def sizeofRequest : Nat := 24

/-- A request as it lies in memory, with the bytes of the buffer from `data` on. -/
structure Request where
  command : Bytes
  clientId : Nat
  len : Nat
  data : Bytes
  inBuffer : data.length ≤ inBufSize

/-- A request in a buffer, its command and its string being texts. -/
def textRequest (command text : String) (short : (bytes text).length ≤ inBufSize) : Request where
  command := bytes command ++ List.replicate (16 - (bytes command).length) 0
  clientId := 0
  len := (bytes text).length
  data := bytes text
  inBuffer := short

/-! ### Cutting the request string -/

/-- Where `parse_args` is: between two arguments, or inside one with these bytes so far. -/
inductive Parsing where
  | between
  | quoted (arg : Bytes)
  | bare (arg : Bytes)

/-- An argument in front of those that follow. -/
def consArg (arg : Bytes) (others : List Bytes × Int) : List Bytes × Int :=
  (arg :: others.1, others.2)

/-- The bytes of the arguments and the return value: a quoted argument has to end in a quote, and a
bare one ends where white space begins. -/
def parseFrom : Parsing → Bytes → List Bytes × Int
  | .between, [] => ([], 0)
  | .quoted _, [] => ([], eInvArgs)
  | .bare arg, [] => ([arg], 0)
  | .between, char :: rest =>
      if isspace char then parseFrom .between rest
      else if char = 34 then parseFrom (.quoted []) rest
      else parseFrom (.bare [char]) rest
  | .quoted arg, char :: rest =>
      if char = 34 then consArg arg (parseFrom .between rest)
      else parseFrom (.quoted (arg ++ [char])) rest
  | .bare arg, char :: rest =>
      if isspace char then consArg arg (parseFrom .between rest)
      else parseFrom (.bare (arg ++ [char])) rest

/-- The strings made of the arguments, each in the next allocation. -/
def createArgs (env : Env) (next : Nat) : List Bytes → List Bss
  | [] => []
  | arg :: rest => bssCreate env next arg :: createArgs env (next + 1) rest

/-- The caller's array has `MAX_ARGS` places, and their number is not tested. -/
def parseArgs (env : Env) (next : Nat) (data : Bytes) (len : Nat) :
    Except Fault (List Bss × Int) :=
  if data.length < len then
    .error .outOfBounds
  else if maxArgs < (parseFrom .between (data.take len)).1.length then
    .error .outOfBounds
  else
    .ok (createArgs env next (parseFrom .between (data.take len)).1,
      (parseFrom .between (data.take len)).2)

/-! ### Processing a request -/

/-- The entry of the table a request names. -/
def findCommand (command : Bytes) : Option Command :=
  (commadTbl.take numCommands).find? fun entry => strcasecmp command (bytes entry.name)

/-- The test of the last argument of a blocking command. -/
def badTimeout (last : Bss) : Bool :=
  (bss2int last).2 ≠ 0 || (bss2int last).1 < 0 || int32Max < (bss2int last).1

/-- What a request comes to before a handler runs. -/
inductive Reading where
  | stops (stop : Fault)
  | fails (s : String)
  /-- a handler is called, if it blocks with the timeout left out -/
  | calls (command : Command) (args : List Bss) (timeout : Option Int)

/-- `process_request` up to the call of the handler. For a blocking command without arguments the
index of the last one wraps, and a place far behind the array is read. -/
def readRequest (env : Env) (next : Nat) (request : Request) : Reading :=
  match findCommand request.command with
  | none => .fails invCmd
  | some command =>
      match parseArgs env next request.data request.len with
      | .error stop => .stops stop
      | .ok (args, ret) =>
          if ret ≠ 0 then .fails invArg
          else if command.type = blocked then
            match args.getLast? with
            | none => .stops .outOfBounds
            | some last =>
                if badTimeout last then .fails (if (bss2int last).1 < 0 then negTm else invTm)
                else .calls command args.dropLast (some (bss2int last).1)
          else .calls command args none

/-- What is done with the return value of a handler. A command that does not block has no timeout
to be added to the pending list with. -/
def finishRequest (env : Env) (type : UInt8) (isNew : Bool) (result : Result Obj) : Run Obj :=
  if result.ret = eTooLong then failReply result.dict tooLong
  else if result.ret = eBlocked then
    if isNew = true ∧ type ≠ blocked then fault .uninitialised
    else returning result.dict eBlocked
  else if type = blocked then arrReply env result.dict
  else returning result.dict result.ret

/-- The surroundings of the handler: its allocations follow those of the arguments. -/
def handlerEnv (env : Env) (next : Nat) : Env := { env with fresh := next + maxArgs }

def processRequest (env : Env) (next : Nat) (keyDict : Dict Obj) (isNew : Bool)
    (request : Request) : Run Obj :=
  match readRequest env next request with
  | .stops stop => fault stop
  | .fails s => failReply keyDict s
  | .calls command args _ =>
      (command.func.run (handlerEnv env next) keyDict args).andThen
        (finishRequest env command.type isNew)

/-! ### What the arguments are -/

/-- The bytes of an argument that is not complete. -/
def Parsing.begun : Parsing → Bytes
  | .between => []
  | .quoted arg => arg
  | .bare arg => arg

theorem length_le_of_mem_parseFrom {parsing : Parsing} {data arg : Bytes}
    (member : arg ∈ (parseFrom parsing data).1) :
    arg.length ≤ parsing.begun.length + data.length := by
  induction data generalizing parsing with
  | nil =>
    cases parsing with
    | between => cases member
    | quoted begun => cases member
    | bare begun =>
      cases List.mem_singleton.mp member
      exact Nat.le_refl _
  | cons char rest inductionHypothesis =>
    have longer (begun : Bytes) : (begun ++ [char]).length = begun.length + 1 := by
      rw [List.length_append, List.length_singleton]
    cases parsing with
    | between =>
      rw [parseFrom] at member
      split at member
      · exact Nat.le_trans (inductionHypothesis member) (Nat.le_succ _)
      · split at member
        · exact Nat.le_trans (inductionHypothesis member) (Nat.le_succ _)
        · have bounded := inductionHypothesis member
          rw [List.length_cons, Nat.add_comm rest.length 1, ← Nat.add_assoc]
          exact bounded
    | quoted begun | bare begun =>
      rw [parseFrom] at member
      split at member
      · rcases List.mem_cons.mp member with rfl | later
        · exact Nat.le_add_right _ _
        · have bounded : arg.length ≤ 0 + rest.length := inductionHypothesis later
          rw [List.length_cons]
          omega
      · have bounded : arg.length ≤ (begun ++ [char]).length + rest.length :=
          inductionHypothesis member
        rw [longer] at bounded
        rw [List.length_cons]
        show arg.length ≤ begun.length + (rest.length + 1)
        omega

theorem mem_createArgs {env : Env} {next : Nat} {pieces : List Bytes} {arg : Bss}
    (member : arg ∈ createArgs env next pieces) :
    ∃ id, ∃ piece ∈ pieces, arg = bssCreate env id piece := by
  induction pieces generalizing next with
  | nil => cases member
  | cons piece rest inductionHypothesis =>
    rcases List.mem_cons.mp member with rfl | later
    · exact ⟨next, piece, List.mem_cons_self, rfl⟩
    · obtain ⟨id, other, inside, same⟩ := inductionHypothesis later
      exact ⟨id, other, List.mem_cons_of_mem _ inside, same⟩

theorem content_createArgs (env : Env) (next : Nat) (pieces : List Bytes) :
    (createArgs env next pieces).map Bss.content = pieces := by
  induction pieces generalizing next with
  | nil => rfl
  | cons piece rest inductionHypothesis =>
    rw [createArgs, List.map_cons, bssCreate_content, inductionHypothesis]

theorem ids_createArgs (env : Env) (next : Nat) (pieces : List Bytes) :
    (createArgs env next pieces).map Bss.id = List.range' next pieces.length := by
  induction pieces generalizing next with
  | nil => rfl
  | cons piece rest inductionHypothesis =>
    rw [createArgs, List.map_cons, inductionHypothesis, List.length_cons, List.range'_succ]
    rfl

/-- The arguments of a request: no longer than it, and in the allocations from `next` on. -/
theorem parseArgs_given {env : Env} {next : Nat} {data : Bytes} {len : Nat} {args : List Bss}
    {ret : Int} (inBuffer : data.length ≤ inBufSize)
    (parsed : parseArgs env next data len = .ok (args, ret)) :
    (∀ arg ∈ args, arg.Arg) ∧ args.length ≤ maxArgs ∧
      args.map Bss.id = List.range' next args.length := by
  rw [parseArgs] at parsed
  split at parsed
  · cases parsed
  · split at parsed
    · cases parsed
    · rename_i few
      cases parsed
      have ids := ids_createArgs env next (parseFrom .between (data.take len)).1
      have length := congrArg List.length ids
      rw [List.length_map, List.length_range'] at length
      refine ⟨fun arg member => ?_, length ▸ Nat.not_lt.mp few, length ▸ ids⟩
      obtain ⟨id, piece, inside, rfl⟩ := mem_createArgs member
      have bounded := length_le_of_mem_parseFrom inside
      have size : piece.length ≤ inBufSize := by
        rw [List.length_take, Parsing.begun, List.length_nil] at bounded
        omega
      refine ⟨size, ?_⟩
      show piece.length ≤ (piece ++ _).length
      rw [List.length_append]
      exact Nat.le_add_right _ _

/-! ### The command of a request -/

/-- The entries marked as blocking are those whose handlers block. -/
theorem findCommand_blocks {command : Bytes} {entry : Command}
    (found : findCommand command = some entry) : entry.type = blocked ↔ entry.func.blocks :=
  commadTbl_blocks (List.mem_of_mem_take (List.mem_of_find?_eq_some found))

/-- What is known of a handler that a request calls. -/
structure Called (next : Nat) (name : Bytes) (command : Command) (args : List Bss) : Prop where
  found : findCommand name = some command
  blocks : command.type = blocked ↔ command.func.blocks
  given : ∀ arg ∈ args, arg.Arg
  ids : (args.map Bss.id).Sublist (List.range' next maxArgs)

theorem readRequest_called {env : Env} {next : Nat} {request : Request} {command : Command}
    {args : List Bss} {timeout : Option Int}
    (read : readRequest env next request = .calls command args timeout) :
    Called next request.command command args := by
  rw [readRequest] at read
  split at read
  · cases read
  · rename_i entry found
    split at read
    · cases read
    · rename_i all ret parsed
      obtain ⟨given, few, ids⟩ := parseArgs_given request.inBuffer parsed
      have inRange : (all.map Bss.id).Sublist (List.range' next maxArgs) := by
        rw [ids]
        exact List.range'_sublist_right.mpr few
      split at read
      · cases read
      · split at read
        · split at read
          · cases read
          · split at read
            · cases read
            · cases read
              refine ⟨found, findCommand_blocks found, fun arg member => ?_, ?_⟩
              · exact given arg (List.dropLast_subset all member)
              · exact ((List.dropLast_sublist all).map Bss.id).trans inRange
        · cases read
          exact ⟨found, findCommand_blocks found, given, inRange⟩

theorem readRequest_error {env : Env} {next : Nat} {request : Request} {s : String}
    (read : readRequest env next request = .fails s) : ErrorText s := by
  rw [readRequest] at read
  split at read
  · cases read
    infer_instance
  · split at read
    · cases read
    · split at read
      · cases read
        infer_instance
      · split at read
        · split at read
          · cases read
          · split at read
            · cases read
              split
              · infer_instance
              · infer_instance
            · cases read
        · cases read

/-- The call of a handler that a request leads to. -/
def Called.call {next : Nat} {name : Bytes} {command : Command} {args : List Bss}
    (called : Called next name command args) (env : Env) : Call where
  env := handlerEnv env next
  func := command.func
  args := args
  given := called.given

/-! ### After the handler -/

/-- What a handler leaves is passed on. -/
theorem andThen_ok {V : Type} {run : Run V} {next : Result V → Run V} {sh : Shared}
    {result : Result V} (ran : run sh = .ok result) :
    run.andThen next sh = next result result.sh := by
  rw [Run.andThen, ran]

theorem andThen_error {V : Type} {run : Run V} {next : Result V → Run V} {sh : Shared}
    {stop : Stop} (ran : run sh = .error stop) : run.andThen next sh = .error stop := by
  rw [Run.andThen, ran]

variable {env : Env} {type : UInt8} {isNew : Bool}

theorem finishRequest_answered {result : Result Obj} (long : result.ret ≠ eTooLong)
    (waits : result.ret ≠ eBlocked) :
    finishRequest env type isNew result =
      if type = blocked then arrReply env result.dict else returning result.dict result.ret := by
  rw [finishRequest, if_neg long, if_neg waits]

/-- The reply a handler built is the answer, unless the command blocks. -/
theorem served_answered {run : Run Obj} {dict : Dict Obj} {sh sh' : Shared}
    (direct : type ≠ blocked) (ran : run sh = .ok ⟨dict, sh', 0⟩) :
    run.andThen (finishRequest env type isNew) sh = .ok ⟨dict, sh', 0⟩ := by
  have answered := @finishRequest_answered env type isNew ⟨dict, sh', 0⟩
    (by decide : (0 : Int) ≠ eTooLong) (by decide : (0 : Int) ≠ eBlocked)
  rw [andThen_ok ran, answered, if_neg direct]
  rfl

/-- What does not fit is answered with an error. -/
theorem served_tooLong {run : Run Obj} {dict : Dict Obj} {sh sh' : Shared}
    (ran : run sh = .ok ⟨dict, sh', eTooLong⟩) :
    run.andThen (finishRequest env type isNew) sh =
      .ok ⟨dict, sh'.answer rplyFail (bytes tooLong), 0⟩ := by
  rw [andThen_ok ran, finishRequest, if_pos rfl, failReply_eq]
  rfl

/-- A blocked handler is not answered. -/
theorem finishRequest_blocked {result final : Result Obj} (waits : result.ret = eBlocked)
    {sh : Shared} (ran : finishRequest env type isNew result sh = .ok final) :
    final.ret = eBlocked := by
  rw [finishRequest, waits, if_neg (by decide), if_pos rfl] at ran
  split at ran
  · cases ran
  · cases ran
    rfl

end PseudoRedis
