/-
This file proves the refinement: a server that answers requests one after the other answers
each as the ledger does, and keeps the ledger, until a request stops it. The ledger knows
nothing of the tables, of their resizing, of the chains, of the capacities of strings and of
the reply buffers; what the program does with them never shows, except in the length of what
is said.

What is assumed of a request is that its string lies in the buffer and has at most
`MAX_ARGS` arguments, and of the allocator that it gives addresses not in use.
-/

import PseudoRedis.LedgerRequests
import PseudoRedis.Dispatch

namespace PseudoRedis

variable {env : Env} {dict : Dict Obj} {ledger ledger' : Ledger} {next : Nat} {request : Request}
  {outcome : Outcome} {told : Told}

/-! ### Requests in the ledger -/

/-- The arguments in a request string, and what `parse_args` returns. -/
def Request.wanted (request : Request) : List Bytes × Int :=
  parseFrom .between (request.data.take request.len)

/-- What a request means, if it does not name a command that the ledger leaves out. -/
def Request.meaning (request : Request) (ledger : Ledger) : Option Outcome :=
  match findCommand request.command with
  | none => some (.goesOn ledger (.error invCmd))
  | some command =>
      command.func.meaning.map fun meaning =>
        if request.wanted.2 ≠ 0 then .goesOn ledger (.error invArg)
        else meaning ledger request.wanted.1

/-- The request string is in the buffer, and its arguments are in the array. -/
structure Request.Sane (request : Request) : Prop where
  inside : request.len ≤ request.data.length
  few : request.wanted.1.length ≤ maxArgs

theorem Request.Sane.parsed (sane : request.Sane) (env : Env) (next : Nat) :
    parseArgs env next request.data request.len =
      .ok (createArgs env next request.wanted.1, request.wanted.2) := by
  rw [parseArgs, if_neg (Nat.not_lt.mpr sane.inside)]
  exact if_neg (Nat.not_lt.mpr sane.few)

/-- The commands of the ledger leave no empty container, name their keys, and do not block. -/
theorem CommandFunc.plain {func : CommandFunc} {meaning : Meaning}
    (meant : func.meaning = some meaning) (env : Env) (dict : Dict Obj) (args : List Bss) :
    ¬ func.Empties env dict args ∧ func.whole = false ∧ ¬ func.blocks := by
  cases func <;> cases meant <;> exact ⟨id, rfl, by decide⟩

/-- The arguments of a request. -/
theorem admitted_of_request {func : CommandFunc} {meaning : Meaning}
    (meant : func.meaning = some meaning) (sane : request.Sane) (keeps : Keeps dict ledger)
    (roomy : Roomy dict (List.range' next (maxArgs + 2))) :
    Admitted func (handlerEnv env next) dict ledger (createArgs env next request.wanted.1) := by
  obtain ⟨fills, part, -⟩ := func.plain meant (handlerEnv env next) dict
    (createArgs env next request.wanted.1)
  obtain ⟨given, -⟩ := parseArgs_given request.inBuffer (sane.parsed env next)
  have taken : (spent (handlerEnv env next) (createArgs env next request.wanted.1)).Sublist
      (List.range' next (maxArgs + 2)) := by
    have parts : List.range' next (maxArgs + 2) =
        List.range' next maxArgs ++ List.range' (next + maxArgs) 2 := List.range'_append_1.symm
    rw [spent, ids_createArgs, parts]
    exact (List.range'_sublist_right.mpr sane.few).append (List.Sublist.refl _)
  refine ⟨keeps, fun arg member => ⟨given arg member, ?_⟩, roomy.sublist taken, fills, part⟩
  obtain ⟨id, piece, -, rfl⟩ := mem_createArgs member
  exact bssCreate_proper env id piece

/-- The answer to a request, or the way it stops the server. -/
def ServedAs (env : Env) (next : Nat) (dict : Dict Obj) (isNew : Bool) (request : Request)
    (sh : Shared) : Outcome → Prop
  | .goesOn ledger told =>
      ∃ dict' sh', processRequest env next dict isNew request sh = .ok ⟨dict', sh', 0⟩ ∧
        told.SaidIn sh'.curr ∧ Keeps dict' ledger
  | .stops => processRequest env next dict isNew request sh = .error .freedTwice

/-- A request that is refused before a handler sees it. -/
theorem Keeps.fails (keeps : Keeps dict ledger) (s : String) [known : ErrorText s]
    (read : readRequest env next request = .fails s) (isNew : Bool) (sh : Shared) :
    ServedAs env next dict isNew request sh (.goesOn ledger (.error s)) := by
  have small : (bytes s).length < 2 ^ 32 := Nat.lt_of_le_of_lt known.short (by decide)
  refine ⟨dict, sh.answer rplyFail (bytes s), ?_, saidIn_of_answer sh small rfl (by decide), keeps⟩
  rw [processRequest, read]
  show failReply dict s sh = _
  rw [failReply_eq]
  rfl

/-- A request is answered as the ledger says, and what the server keeps is the next ledger. -/
theorem Keeps.serves (keeps : Keeps dict ledger) (sane : request.Sane)
    (roomy : Roomy dict (List.range' next (maxArgs + 2)))
    (meant : request.meaning ledger = some outcome) (isNew : Bool) (sh : Shared) :
    ServedAs env next dict isNew request sh outcome := by
  rw [Request.meaning] at meant
  cases found : findCommand request.command with
  | none =>
    rw [found] at meant
    cases meant
    exact keeps.fails invCmd (by rw [readRequest, found]) isNew sh
  | some command =>
    rw [found] at meant
    obtain ⟨meaning, known, comes⟩ := Option.map_eq_some_iff.mp meant
    obtain ⟨-, -, direct⟩ := command.func.plain known env dict []
    have plain : command.type ≠ blocked := mt (findCommand_blocks found).mp direct
    by_cases wrong : request.wanted.2 ≠ 0
    · rw [if_pos wrong] at comes
      cases comes
      refine keeps.fails invArg ?_ isNew sh
      simp only [readRequest, found, sane.parsed env next]
      exact if_pos wrong
    · rw [if_neg wrong] at comes
      have admitted : Admitted command.func (handlerEnv env next) dict ledger
          (createArgs env next request.wanted.1) := admitted_of_request known sane keeps roomy
      have follows := CommandFunc.follows known admitted
      rw [content_createArgs, comes] at follows
      have read : readRequest env next request =
          .calls command (createArgs env next request.wanted.1) none := by
        simp only [readRequest, found, sane.parsed env next]
        rw [if_neg wrong, if_neg plain]
      cases outcome with
      | goesOn ledger' told =>
        obtain ⟨dict', reports, keeps'⟩ := follows
        obtain ⟨sh', ran, said⟩ := reports.served plain isNew sh
        refine ⟨dict', sh', ?_, said, keeps'⟩
        rw [processRequest, read]
        exact ran
      | stops =>
        have stopped := follows sh
        rw [ServedAs, processRequest, read]
        simp only [Run.andThen, stopped]

/-! ### Any sequence of requests -/

/-- A server that has answered requests one after the other, and the ledger of them. The
surroundings, the allocations and what is in the buffers can be different at each request. -/
inductive LedgerHistory : Dict Obj → Ledger → Prop
  | start : LedgerHistory (dictCreate initDictSize) fun _ => none
  | step {dict : Dict Obj} {ledger ledger' : Ledger} {told : Told} {result : Result Obj}
      (before : LedgerHistory dict ledger) (env : Env) (next : Nat) (isNew : Bool)
      (request : Request) (sh : Shared) (sane : request.Sane)
      (roomy : Roomy dict (List.range' next (maxArgs + 2)))
      (meant : request.meaning ledger = some (.goesOn ledger' told))
      (ran : processRequest env next dict isNew request sh = .ok result) :
      LedgerHistory result.dict ledger'

theorem LedgerHistory.keeps (history : LedgerHistory dict ledger) : Keeps dict ledger := by
  induction history with
  | start => exact keeps_create
  | step before env next isNew request sh sane roomy meant ran inductionHypothesis =>
    obtain ⟨dict', sh', answered, -, keeps⟩ := inductionHypothesis.serves sane roomy meant isNew sh
    rw [answered] at ran
    cases ran
    exact keeps

end PseudoRedis
