/-
This file is about how `process_request` finds a handler. The table of commands has two
entries more than `NUM_COMMANDS`, so the search ends before them. A blocking command
reads its timeout at `args[args_len - 1]` before anything looks at the number of its
arguments; without arguments the index wraps.
-/

import PseudoRedis.Tokenizer

namespace PseudoRedis

/-! ### The entries of the table -/

/-- A command field is, ignoring case, the name of an entry of the table. -/
def Named (command : Bytes) (entry : Command) : Prop :=
  entry ∈ commadTbl ∧ strcasecmp command (bytes entry.name) = true

theorem commadTbl_nodup :
    (commadTbl.map fun entry => (cstring (bytes entry.name)).map tolower).Nodup := by
  decide +kernel

/-- No two entries have the same name. -/
theorem Named.unique {command : Bytes} {first second : Command} (firstNamed : Named command first)
    (secondNamed : Named command second) : first = second := by
  have same : (cstring (bytes first.name)).map tolower =
      (cstring (bytes second.name)).map tolower :=
    (beq_iff_eq.mp firstNamed.2).symm.trans (beq_iff_eq.mp secondNamed.2)
  exact List.inj_on_of_nodup_map commadTbl_nodup firstNamed.1 secondNamed.1 same

/-- The entries the search does not reach. -/
theorem mem_commadTbl {entry : Command} (member : entry ∈ commadTbl) :
    entry ∈ commadTbl.take numCommands ∨ entry.name = "setnx" ∨ entry.name = "incrbyfloat" := by
  rw [← List.take_append_drop numCommands commadTbl, List.mem_append] at member
  refine member.imp_right fun behind => ?_
  have rest : commadTbl.drop numCommands =
      [⟨"setnx", .setnx, notBlocked⟩, ⟨"incrbyfloat", .incrbyfloat, notBlocked⟩] := rfl
  rw [rest] at behind
  rcases List.mem_cons.mp behind with rfl | last
  · exact Or.inl rfl
  · exact Or.inr (congrArg Command.name (List.mem_singleton.mp last))

theorem unreached_not_mem {entry : Command} (member : entry ∈ commadTbl.take numCommands) :
    entry.name ≠ "setnx" ∧ entry.name ≠ "incrbyfloat" := by
  revert entry
  decide

theorem findCommand_named {command : Bytes} {entry : Command}
    (found : findCommand command = some entry) : Named command entry := by
  have holds := @List.find?_some _ (fun entry : Command => strcasecmp command (bytes entry.name))
    _ _ found
  exact ⟨List.mem_of_mem_take (List.mem_of_find?_eq_some found), holds⟩

/-- The search finds what is named, if it is not one of the last two entries. -/
theorem findCommand_iff {command : Bytes} {entry : Command} :
    findCommand command = some entry ↔
      Named command entry ∧ entry.name ≠ "setnx" ∧ entry.name ≠ "incrbyfloat" := by
  constructor
  · intro found
    exact ⟨findCommand_named found, unreached_not_mem (List.mem_of_find?_eq_some found)⟩
  · rintro ⟨named, notSetnx, notIncrbyfloat⟩
    have reached : entry ∈ commadTbl.take numCommands :=
      (mem_commadTbl named.1).resolve_right (not_or.mpr ⟨notSetnx, notIncrbyfloat⟩)
    cases found : findCommand command with
    | none => exact absurd named.2 (List.find?_eq_none.mp found entry reached)
    | some other => rw [(findCommand_named found).unique named]

/-- The names of the blocking commands. -/
theorem blocked_names {entry : Command} (member : entry ∈ commadTbl)
    (blocks : entry.type = blocked) :
    entry.name = "blpop" ∨ entry.name = "brpop" ∨ entry.name = "brpoplpush" := by
  revert entry
  decide

/-! ### The request string of a blocking command -/

/-- The request string lies in the buffer and is white space. -/
def Request.Blank (request : Request) : Prop :=
  request.len ≤ request.data.length ∧
    ∀ char ∈ request.data.take request.len, isspace char = true

variable {env : Env} {next : Nat} {request : Request}

theorem parseArgs_blank (blank : request.Blank) :
    parseArgs env next request.data request.len = .ok ([], 0) :=
  parseArgs_tokenization blank.1 (.blank blank.2)

/-- Without arguments there is nothing but white space. -/
theorem blank_of_parseArgs (parsed : parseArgs env next request.data request.len = .ok ([], 0)) :
    request.Blank := by
  have inside : request.len ≤ request.data.length := by
    by_contra beyond
    rw [parseArgs, if_pos (Nat.not_le.mp beyond)] at parsed
    cases parsed
  refine ⟨inside, ?_⟩
  obtain ⟨tokens, isOpen, read⟩ := exists_tokenization (request.data.take request.len)
  rw [parseArgs_tokenization inside read, outcome_eq_ok_iff] at parsed
  obtain ⟨-, none, code⟩ := parsed
  have nothing : tokens.length = 0 := by
    rw [← List.length_map Token.body, ← @length_createArgs env next, ← none]
    rfl
  generalize request.data.take request.len = input at read ⊢
  cases read with
  | blank space => exact space
  | dangling space noQuote => exact absurd code (by decide)
  | token space valid ends later => cases nothing

/-! ### Dispatching -/

/-- The index of the last argument, a `uint32_t`. -/
def timeoutIndex (argsLen : Nat) : Nat := (((argsLen : Int) - 1) % 2 ^ 32).toNat

/-- What `parse_args` yields for the handler of an entry: all arguments, or those before the timeout
of a blocking command. -/
def Handed (env : Env) (next : Nat) (request : Request) (entry : Command) (args : List Bss)
    (timeout : Option Int) : Prop :=
  if entry.type = blocked then
    ∃ last, parseArgs env next request.data request.len = .ok (args ++ [last], 0) ∧
      badTimeout last = false ∧ timeout = some (bss2int last).1
  else parseArgs env next request.data request.len = .ok (args, 0) ∧ timeout = none

/-- A request leads to the handler its command field names, with the arguments parsed for it; a
command is unknown only if the table does not have it, and the timeout is an argument. -/
structure Dispatches (env : Env) (next : Nat) (request : Request) : Prop where
  calls : ∀ entry args timeout, readRequest env next request = .calls entry args timeout ↔
    Named request.command entry ∧ Handed env next request entry args timeout
  unknown : readRequest env next request = .fails invCmd →
    ∀ entry, ¬ Named request.command entry
  inside : ∀ entry args, Named request.command entry → entry.type = blocked →
    parseArgs env next request.data request.len = .ok (args, 0) →
      timeoutIndex args.length < args.length

/-- The command is not one of the two the search does not reach, and a blocking command has an
argument. -/
structure Dispatchable (request : Request) : Prop where
  reached : ∀ name, name = "setnx" ∨ name = "incrbyfloat" →
    strcasecmp request.command (bytes name) = false
  timed : ∀ name, name = "blpop" ∨ name = "brpop" ∨ name = "brpoplpush" →
    strcasecmp request.command (bytes name) = true → ¬ request.Blank

/-- Nothing is handed to a handler of a string that is refused. -/
theorem Handed.parsed {entry : Command} {args : List Bss} {timeout : Option Int}
    (handed : Handed env next request entry args timeout) :
    ∃ all, parseArgs env next request.data request.len = .ok (all, 0) := by
  rw [Handed] at handed
  split at handed
  · obtain ⟨last, parsed, -⟩ := handed
    exact ⟨_, parsed⟩
  · exact ⟨_, handed.1⟩

/-- The arguments handed to a blocking handler are those before the last one. -/
theorem handed_of_last {entry : Command} {before args : List Bss} {last : Bss}
    {timeout : Option Int} (blocks : entry.type = blocked)
    (parsed : parseArgs env next request.data request.len = .ok (before ++ [last], 0)) :
    Handed env next request entry args timeout ↔
      badTimeout last = false ∧ before = args ∧ some (bss2int last).1 = timeout := by
  rw [Handed, if_pos blocks, parsed]
  constructor
  · rintro ⟨other, same, fine, rfl⟩
    obtain ⟨rfl, one⟩ := List.append_inj' (Prod.mk.inj (Except.ok.inj same)).1 rfl
    cases one
    exact ⟨fine, rfl, rfl⟩
  · rintro ⟨fine, rfl, rfl⟩
    exact ⟨last, rfl, fine, rfl⟩

/-- What is read of a request whose command is found. -/
theorem readRequest_found {entry : Command} (found : findCommand request.command = some entry)
    (timed : entry.type = blocked → ¬ request.Blank) (args : List Bss) (timeout : Option Int) :
    readRequest env next request = .calls entry args timeout ↔
      Handed env next request entry args timeout := by
  rw [readRequest, found]
  by_cases accepted : ∃ all, parseArgs env next request.data request.len = .ok (all, 0)
  · obtain ⟨all, parsed⟩ := accepted
    rw [parsed]
    by_cases blocks : entry.type = blocked
    · simp only [ne_eq, not_true_eq_false, if_false, blocks, if_true]
      cases atEnd : all.getLast? with
      | none =>
        rw [List.getLast?_eq_none_iff.mp atEnd] at parsed
        exact absurd (blank_of_parseArgs parsed) (timed blocks)
      | some last =>
        rw [← List.dropLast_append_getLast? last atEnd] at parsed
        rw [handed_of_last blocks parsed]
        simp only
        split
        · rename_i bad
          rw [bad]
          exact iff_of_false (fun same => by cases same) fun handed => by cases handed.1
        · rename_i fine
          rw [Reading.calls.injEq, and_iff_right rfl, and_iff_right (Bool.eq_false_iff.mpr fine)]
    · rw [Handed, if_neg blocks, parsed]
      simp only [ne_eq, not_true_eq_false, if_false, blocks, Except.ok.injEq, Prod.mk.injEq,
        and_true, Reading.calls.injEq, true_and]
      rw [@eq_comm _ none]
  · refine iff_of_false (fun calls => ?_) fun handed => accepted handed.parsed
    simp only at calls
    split at calls
    · cases calls
    · rename_i all ret parsed
      split at calls
      · cases calls
      · rename_i zero
        exact accepted ⟨all, not_not.mp zero ▸ parsed⟩

/-- The search, and what follows when it finds nothing. -/
theorem readRequest_unknown (missing : findCommand request.command = none) :
    readRequest env next request = .fails invCmd := by rw [readRequest, missing]

/-- A command that is found is not called unknown. -/
theorem readRequest_known {entry : Command} (found : findCommand request.command = some entry) :
    readRequest env next request ≠ .fails invCmd := by
  simp only [readRequest, found]
  intro unknown
  split at unknown
  · cases unknown
  · split at unknown
    · exact absurd (Reading.fails.inj unknown) (by decide)
    · split at unknown
      · split at unknown
        · cases unknown
        · split at unknown
          · have same := Reading.fails.inj unknown
            split at same
            · exact absurd same (by decide)
            · exact absurd same (by decide)
          · cases unknown
      · cases unknown

/-- What has a name of the table names an entry. -/
theorem exists_named {command : Bytes} {name : String}
    (listed : name ∈ commadTbl.map Command.name) (same : strcasecmp command (bytes name) = true) :
    ∃ entry, Named command entry ∧ entry.name = name := by
  obtain ⟨entry, member, rfl⟩ := List.mem_map.mp listed
  exact ⟨entry, ⟨member, same⟩, rfl⟩

theorem blocked_of_name {entry : Command} (member : entry ∈ commadTbl)
    (name : entry.name = "blpop" ∨ entry.name = "brpop" ∨ entry.name = "brpoplpush") :
    entry.type = blocked := by
  revert entry
  decide

/-- A request is dispatched as the table says exactly if its command is among those searched and,
if it blocks, it has an argument. -/
theorem process_request_dispatches_iff (env : Env) (next : Nat) (request : Request) :
    Dispatches env next request ↔ Dispatchable request := by
  constructor
  · intro dispatches
    refine ⟨fun name last => ?_, fun name blocks same blank => ?_⟩
    · by_contra named
      have listed : name ∈ commadTbl.map Command.name := by rcases last with rfl | rfl <;> decide
      obtain ⟨entry, isNamed, rfl⟩ := exists_named listed (Bool.not_eq_false _ ▸ named)
      cases found : findCommand request.command with
      | none => exact dispatches.unknown (readRequest_unknown found) entry isNamed
      | some other =>
        obtain ⟨otherNamed, notLast⟩ := findCommand_iff.mp found
        rw [otherNamed.unique isNamed] at notLast
        exact last.elim notLast.1 notLast.2
    · have listed : name ∈ commadTbl.map Command.name := by
        rcases blocks with rfl | rfl | rfl <;> decide
      obtain ⟨entry, isNamed, rfl⟩ := exists_named listed same
      have below := dispatches.inside entry [] isNamed (blocked_of_name isNamed.1 blocks)
        (parseArgs_blank blank)
      exact absurd below (Nat.not_lt_zero _)
  · intro dispatchable
    have searched : ∀ entry, findCommand request.command = some entry ↔
        Named request.command entry := by
      intro entry
      refine findCommand_iff.trans (and_iff_left_of_imp fun named => ?_)
      have unreached : ¬ (entry.name = "setnx" ∨ entry.name = "incrbyfloat") := fun last =>
        absurd named.2 (Bool.eq_false_iff.mp (dispatchable.reached _ last))
      exact not_or.mp unreached
    have timed : ∀ entry, Named request.command entry → entry.type = blocked → ¬ request.Blank :=
      fun entry named blocks => dispatchable.timed _ (blocked_names named.1 blocks) named.2
    refine ⟨fun entry args timeout => ?_, fun unknown entry named => ?_,
      fun entry args named blocks parsed => ?_⟩
    · constructor
      · intro calls
        have found := (readRequest_called calls).found
        have named := (searched entry).mp found
        exact ⟨named, (readRequest_found found (timed entry named) args timeout).mp calls⟩
      · rintro ⟨named, handed⟩
        have found := (searched entry).mpr named
        exact (readRequest_found found (timed entry named) args timeout).mpr handed
    · exact readRequest_known ((searched entry).mpr named) unknown
    · cases args with
      | nil => exact absurd (blank_of_parseArgs parsed) (timed entry named blocks)
      | cons first rest =>
        rw [timeoutIndex, List.length_cons]
        omega

/-- `SETNX k x` is not dispatched: the search ends before its entry. -/
theorem process_request_misses :
    ∃ (env : Env) (next : Nat) (request : Request), ¬ Dispatches env next request ∧
      readRequest env next request = .fails invCmd ∧
      ∃ entry, Named request.command entry := by
  have listed : "setnx" ∈ commadTbl.map Command.name := by decide
  have same :
      strcasecmp (textRequest "setnx" "k x" (by decide)).command (bytes "setnx") = true := by
    decide
  obtain ⟨entry, named, -⟩ := exists_named listed same
  have unknown : readRequest Env.plain 0 (textRequest "setnx" "k x" (by decide)) = .fails invCmd :=
    rfl
  exact ⟨Env.plain, 0, textRequest "setnx" "k x" (by decide),
    fun dispatches => dispatches.unknown unknown entry named, unknown, entry, named⟩

end PseudoRedis
