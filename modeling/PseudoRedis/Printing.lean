/-
This file carries the answers of the ledger to the terminal: a reply that says what the
ledger says has the client print a text that is a function of the answer. A number is cut
to its low half, a text and the entries of an array are quoted, and an array is numbered;
the numbers have the width of the number in the header, which is one less than the number
of entries. Only a type beyond the table of their names would have no text, and no command
of the ledger answers one.
-/

import PseudoRedis.Reporting
import PseudoRedis.Terminal
import Mathlib.Algebra.Order.BigOperators.Group.List
import Mathlib.Algebra.Order.Group.Nat

namespace PseudoRedis

/-! ### What is printed -/

/-- The line of an error. -/
def errorText (s : String) : Bytes := bytes "(error) " ++ printStr (bytes s) false

/-- The line of an entry: its number, and its text in quotes. -/
def printEntry (dispWidth index : Nat) (entry : Option Bytes) : Bytes :=
  printIndex dispWidth index ++ entry.elim (bytes "(nil)\n") fun data => printStr data true

/-- The lines of entries from this number on. -/
def printEntries (dispWidth : Nat) : Nat → List (Option Bytes) → Bytes
  | _, [] => []
  | index, entry :: rest =>
      printEntry dispWidth index entry ++ printEntries dispWidth (index + 1) rest

/-- The text of an array. -/
def entriesText (entries : List (Option Bytes)) : Bytes :=
  if entries = [] then bytes "(empty list or set)\n"
  else printEntries (countSpace (entries.length - 1)) 1 entries

/-- The text of an answer, or none for a type that has no name. -/
def Told.printed : Told → Option Bytes
  | .number n => some (intText (toInt32 n))
  | .text data => some (if maxRplySize < data.length then errorText tooLong else printStr data true)
  | .ok => some (bytes "OK\n")
  | .nil => some (bytes "(nil)\n")
  | .type n => (typeStr[n.toNat]?).map fun text => printStr (bytes text) false
  | .error s => some (errorText s)
  | .array entries =>
      some (if FitReply (leftover entries) then entriesText (leftover entries)
        else errorText tooLong)

/-! ### Entries on the terminal -/

/-- What the client sees of an entry. -/
def shownEntry : Option Bytes → Shown
  | none => ⟨strNil &&& typeMask, none⟩
  | some data => ⟨strNormal &&& typeMask, some data⟩

variable {entries : List (Option Bytes)}

/-- Entries that fit a reply are those of elements that can be sent. -/
theorem exists_sendable (short : ∀ data, some data ∈ entries → data.length ≤ 1024 * 1024) :
    ∃ elems, List.Forall₂ ElemShows elems entries ∧ (∀ elem ∈ elems, elem.Sendable) ∧
      elems.map Elem.shown = entries.map shownEntry := by
  induction entries with
  | nil => exact ⟨[], .nil, List.forall_mem_nil _, rfl⟩
  | cons entry rest inductionHypothesis =>
    obtain ⟨elems, shows, sendable, shown⟩ := inductionHypothesis fun data member =>
      short data (List.mem_cons_of_mem _ member)
    cases entry with
    | none =>
      refine ⟨⟨none, strNil⟩ :: elems, .cons rfl shows,
        List.forall_mem_cons.mpr ⟨.nil none strNil (Or.inl rfl), sendable⟩, ?_⟩
      rw [List.map_cons, List.map_cons, shown]
      rfl
    | some data =>
      have fits : data.length ≤ 1024 * 1024 := short data List.mem_cons_self
      have bound : data.length < 2 ^ 31 := Nat.lt_of_le_of_lt fits (by decide)
      have whole : (⟨0, data.length, 0, data⟩ : Bss).content = data := List.take_length
      refine ⟨⟨some ⟨0, data.length, 0, data⟩, strNormal⟩ :: elems,
        .cons ⟨_, rfl, whole, bound, Nat.le_refl _⟩ shows, List.forall_mem_cons.mpr
          ⟨.string _ strNormal (by decide) fits (Nat.le_refl _), sendable⟩, ?_⟩
      rw [List.map_cons, List.map_cons, shown, Elem.shown, if_neg strNormal_string,
        Option.map_some, whole]
      rfl

/-- Each text of an array that fits a reply fits one as well. -/
theorem length_le_of_fitReply (fit : FitReply entries) {data : Bytes}
    (member : some data ∈ entries) : data.length ≤ 1024 * 1024 := by
  have part : valueSize (some data) ≤ (entries.map valueSize).sum :=
    List.le_sum_of_mem (List.mem_map_of_mem member)
  have size : valueSize (some data) = data.length + sizeTl := rfl
  have limit : maxRplySize = 1024 * 1024 := rfl
  rw [FitReply] at fit
  omega

/-- The walk over the entries of a reply. -/
theorem elementWalk_values (fit : FitReply entries) :
    elementWalk (entries.flatMap encodeValue ++ [strEnd]) =
      some (entries.map shownEntry, []) := by
  obtain ⟨elems, shows, sendable, shown⟩ :=
    exists_sendable fun data member => length_le_of_fitReply fit member
  rw [← encode_of_shows shows, elementWalk_elems sendable, shown]

/-- The client prints an entry as an element without flags. -/
theorem printElem_entry (dispWidth index : Nat) (entry : Option Bytes) :
    printElem false dispWidth index (shownEntry entry) = printEntry dispWidth index entry := by
  have numbered : strNi &&& (shownEntry entry).type = 0 := by
    cases entry with
    | none => exact (by decide : strNi &&& (strNil &&& typeMask) = 0)
    | some data => exact (by decide : strNi &&& (strNormal &&& typeMask) = 0)
  have quoted : (strNotQuoted &&& (strNormal &&& typeMask) = 0) := by decide
  rw [printElem, if_neg fun indented => Bool.false_ne_true indented.1, if_pos numbered,
    List.nil_append, printEntry]
  cases entry with
  | none => rfl
  | some data =>
    simp only [shownEntry, quoted]
    rfl

theorem printElems_entries (dispWidth index : Nat) (entries : List (Option Bytes)) :
    printElems false dispWidth index (entries.map shownEntry) =
      printEntries dispWidth index entries := by
  induction entries generalizing index with
  | nil => rfl
  | cons entry rest inductionHypothesis =>
    rw [List.map_cons, printElems, printEntries, printElem_entry, inductionHypothesis]

/-- The number in the header gives the width, unless there is nothing to be numbered. -/
theorem printArr_entries {arrNum : UInt32} (few : entries.length < 2 ^ 32)
    (count : entries ≠ [] → arrNum = UInt32.ofNat entries.length - 1) :
    printArr false arrNum (entries.map shownEntry) = entriesText entries := by
  simp only [printArr, printElems_entries, entriesText, List.map_eq_nil_iff]
  by_cases empty : entries = []
  · subst empty
    rw [if_pos rfl, if_pos rfl]
    rfl
  · have positive : 0 < entries.length := List.length_pos_iff.mpr empty
    have width : arrNum.toNat = entries.length - 1 := by
      rw [count empty, UInt32.toNat_sub, UInt32.toNat_ofNat']
      have one : (1 : UInt32).toNat = 1 := rfl
      omega
    rw [if_neg empty, if_neg empty, List.append_nil, width]

/-- What the counter of the array leaves is counted by it. -/
theorem length_leftover_lt (entries : List (Option Bytes)) :
    (leftover entries).length < 2 ^ 32 := by
  rw [leftover, List.length_drop]
  omega

/-! ### What a reply has the client print -/

/-- A reply with a data area of the length in its header. -/
def exactReply (arrNum : UInt32) (said : UInt8 × Bytes) : Reply :=
  ⟨said.1, arrNum, UInt32.ofNat said.2.length, said.2⟩

variable {told : Told} {reply : Reply}

/-- The client finds the header and what was said. -/
theorem Told.SaidIn.received (saidIn : told.SaidIn reply) :
    received reply.wire = some (exactReply reply.arrNum told.said) ∧
      told.said.2.length < 2 ^ 32 := by
  have type : reply.replyType = told.said.1 := congrArg Prod.fst saidIn.said
  have data : reply.data.take reply.len.toNat = told.said.2 := congrArg Prod.snd saidIn.said
  have size : told.said.2.length = reply.len.toNat := by
    rw [← data, List.length_take, Nat.min_eq_left saidIn.whole]
  refine ⟨?_, Nat.lt_of_le_of_lt (Nat.le_of_eq size) reply.len.toNat_lt⟩
  rw [received_wire, exactReply, size, UInt32.ofNat_toNat, ← type, ← data]

theorem exactReply_len (type : UInt8) (arrNum : UInt32) {data : Bytes}
    (small : data.length < 2 ^ 32) : (exactReply arrNum (type, data)).len.toNat = data.length := by
  rw [exactReply, UInt32.toNat_ofNat', Nat.mod_eq_of_lt small]

theorem displayText_fail (arrNum : UInt32) {data : Bytes} (small : data.length < 2 ^ 32) :
    displayText (exactReply arrNum (rplyFail, data)) =
      some (bytes "(error) " ++ printStr data false) := by
  show (if data.length < (exactReply arrNum (rplyFail, data)).len.toNat then none
    else some (bytes "(error) " ++
      printStr (data.take (exactReply arrNum (rplyFail, data)).len.toNat) false)) = _
  rw [exactReply_len _ _ small, if_neg (Nat.lt_irrefl _), List.take_length]

theorem displayText_string (arrNum : UInt32) {data : Bytes} (small : data.length < 2 ^ 32) :
    displayText (exactReply arrNum (rplyString, data)) = some (printStr data true) := by
  show (if data.length < (exactReply arrNum (rplyString, data)).len.toNat then none
    else some (printStr (data.take (exactReply arrNum (rplyString, data)).len.toNat) true)) = _
  rw [exactReply_len _ _ small, if_neg (Nat.lt_irrefl _), List.take_length]

theorem displayText_int (arrNum : UInt32) (n : Int) :
    displayText (exactReply arrNum (rplyInt, bigEndian64 n)) = some (intText (toInt32 n)) := by
  show (readBigEndian64 (bigEndian64 n)).map
    (fun (n : Nat) => bytes "(interger) " ++ sprintfD n ++ [10]) = _
  rw [readBigEndian64_bigEndian64, Option.map_some, sprintfD, toInt32_toSize]
  rfl

/-- An array is shown entry by entry, and the walk ends at `STR_END`. -/
theorem displayText_array {arrNum : UInt32} (fit : FitReply entries)
    (few : entries.length < 2 ^ 32)
    (small : (entries.flatMap encodeValue ++ [strEnd]).length < 2 ^ 32)
    (count : entries ≠ [] → arrNum = UInt32.ofNat entries.length - 1) :
    displayText (exactReply arrNum (rplyArr, entries.flatMap encodeValue ++ [strEnd])) =
      some (entriesText entries) := by
  have walk := elementWalk_values fit
  rw [← printArr_entries few count]
  generalize entries.flatMap encodeValue ++ [strEnd] = sent at small walk ⊢
  have type : (exactReply arrNum (rplyArr, sent)).replyType = rplyArr := rfl
  have notDouble : ¬ rplyArr = rplyDbArr := by decide
  have data : (exactReply arrNum (rplyArr, sent)).data.take
      (exactReply arrNum (rplyArr, sent)).len.toNat = sent := by
    rw [exactReply_len _ _ small]
    exact List.take_length
  have walked : displayReply (exactReply arrNum (rplyArr, sent)) =
      some (none, entries.map shownEntry, []) := by
    simp only [displayReply, type, if_neg notDouble, if_pos, data, walk]
    rfl
  rw [displayText, type, walked]
  rfl

/-- What the client prints for a reply that says what the ledger says. -/
theorem Told.SaidIn.displayed (saidIn : told.SaidIn reply) :
    (PseudoRedis.received reply.wire).bind displayText = told.printed := by
  obtain ⟨arrives, small⟩ := saidIn.received
  have refused : tooLongSaid.2.length < 2 ^ 32 := by decide
  rw [arrives, Option.bind_some]
  cases told with
  | number n => exact displayText_int _ n
  | ok => rfl
  | nil => rfl
  | type n => rfl
  | error s => exact displayText_fail _ small
  | text data =>
    simp only [Told.said, Told.printed] at small ⊢
    split
    · exact displayText_fail _ refused
    · rename_i fits
      rw [if_neg fits] at small
      exact displayText_string _ small
  | array entries =>
    have count := saidIn.count entries rfl
    have type : reply.replyType = (Told.array entries).said.1 := congrArg Prod.fst saidIn.said
    simp only [Told.said, Told.printed] at small type ⊢
    split
    · rename_i fit
      rw [if_pos fit] at small type
      exact displayText_array fit (length_leftover_lt entries) small (count type)
    · exact displayText_fail _ refused

/-! ### Every answer has a text -/

/-- The client has a text for whatever the edit answers. -/
def PrintsAll (edit : Edit) : Prop := ∀ value, ((edit value).2.printed).isSome

variable {Content : Type} {unwrap : Datum → Option Content} {edit : Edit}

/-- A command that only reads. -/
theorem prints_reading {absent : Told} {present : Content → Told} (gone : absent.printed.isSome)
    (there : ∀ content, (present content).printed.isSome) :
    PrintsAll (reading unwrap absent present) := by
  intro value
  unfold reading
  split
  · exact gone
  · rename_i datum
    cases unwrap datum with
    | none => rfl
    | some content => exact there content

/-- A command that edits a value of one type. -/
theorem prints_editing {absent : Option Datum × Told} {present : Content → Option Datum × Told}
    (gone : absent.2.printed.isSome) (there : ∀ content, (present content).2.printed.isSome) :
    PrintsAll (editing unwrap absent present) := by
  intro value
  unfold editing
  split
  · exact gone
  · rename_i datum
    cases unwrap datum with
    | none => rfl
    | some content => exact there content

/-- A command with a number has a text for the refusal of it. -/
theorem prints_withNumber {text : Bytes} {edit : Int → Edit} (prints : ∀ n, PrintsAll (edit n)) :
    PrintsAll (withNumber text edit) := by
  intro value
  rw [withNumber]
  cases spelled text with
  | none => rfl
  | some n => exact prints n value

/-- Every type has a name that the client knows. -/
theorem prints_typeEdit : PrintsAll typeEdit := by
  intro value
  unfold typeEdit datumType
  split <;> rfl

theorem prints_setnxEdit (val : Bytes) : PrintsAll (setnxEdit val) := by
  intro value
  unfold setnxEdit
  split <;> rfl

theorem prints_incrbyEdit (amount : Bytes) : PrintsAll (incrbyEdit amount) := by
  refine prints_withNumber fun n => prints_editing rfl fun data => ?_
  rw [countedUp]
  cases spelled data with
  | none => rfl
  | some old =>
    rw [Option.elim_some]
    split <;> rfl

/-- A popped entry is a text, and nothing is a nil. -/
theorem prints_popEdit (side : End) : PrintsAll (popEdit side) :=
  prints_editing rfl fun entries => by cases takeEnd side entries <;> rfl

theorem prints_lindexEdit (index : Bytes) : PrintsAll (lindexEdit index) :=
  prints_withNumber fun index => prints_reading rfl fun entries => by
    cases (slice entries index index).head? <;> rfl

theorem prints_lsetEdit (index val : Bytes) : PrintsAll (lsetEdit index val) :=
  prints_withNumber fun index => prints_editing rfl fun entries => by split <;> rfl

theorem prints_linsertEdit (place pivot val : Bytes) : PrintsAll (linsertEdit place pivot val) := by
  intro value
  rw [linsertEdit]
  cases direction place with
  | none => rfl
  | some after =>
    have inserts : PrintsAll (editing Datum.entries (none, .number 0) fun entries =>
        (insertFirst after pivot val entries).elim (some (.list entries), .number (-1))
          fun entries => (some (.list entries), .number entries.length)) :=
      prints_editing rfl fun entries => by cases insertFirst after pivot val entries <;> rfl
    exact inserts value

theorem prints_hsetnxEdit (field val : Bytes) : PrintsAll (hsetnxEdit field val) :=
  prints_editing rfl fun fields => by split <;> rfl

theorem prints_hgetEdit (field : Bytes) : PrintsAll (hgetEdit field) :=
  prints_reading rfl fun fields => by cases fields.lookup field <;> rfl

/-- There is a text for the answer, if there is an answer. -/
def Outcome.prints : Outcome → Bool
  | .goesOn _ told => told.printed.isSome
  | .stops => true

/-- The client has a text for whatever a command answers. -/
def PrintsEvery (meaning : Meaning) : Prop :=
  ∀ ledger args, (meaning ledger args).prints

/-- Commands with these arguments print what their edit answers, or the error about their number. -/
theorem prints_onKey (prints : PrintsAll edit) : PrintsEvery (onKey edit) := fun _ _ =>
  onKey_cases (P := fun outcome => outcome.prints) rfl fun _ => prints _

theorem prints_onKeyAnd {edit : Bytes → Edit} (prints : ∀ arg, PrintsAll (edit arg)) :
    PrintsEvery (onKeyAnd edit) := fun _ _ =>
  onKeyAnd_cases (P := fun outcome => outcome.prints) rfl fun _ _ => prints _ _

theorem prints_onKeyAndTwo {edit : Bytes → Bytes → Edit}
    (prints : ∀ first second, PrintsAll (edit first second)) :
    PrintsEvery (onKeyAndTwo edit) := fun _ _ =>
  onKeyAndTwo_cases (P := fun outcome => outcome.prints) rfl fun _ _ _ => prints _ _ _

theorem prints_onKeyAndThree {edit : Bytes → Bytes → Bytes → Edit}
    (prints : ∀ first second third, PrintsAll (edit first second third)) :
    PrintsEvery (onKeyAndThree edit) := fun _ _ =>
  onKeyAndThree_cases (P := fun outcome => outcome.prints) rfl fun _ _ _ _ => prints _ _ _ _

theorem prints_onKeyAndSome {edit : List Bytes → Edit} (prints : ∀ args, PrintsAll (edit args)) :
    PrintsEvery (onKeyAndSome edit) := fun _ _ =>
  onKeyAndSome_cases (P := fun outcome => outcome.prints) rfl fun _ _ => prints _ _

theorem prints_onKeyAndPairs {edit : List Bytes → Edit} (prints : ∀ args, PrintsAll (edit args)) :
    PrintsEvery (onKeyAndPairs edit) := fun _ _ =>
  onKeyAndPairs_cases (P := fun outcome => outcome.prints) rfl fun _ _ => prints _ _

theorem prints_del : PrintsEvery delMeaning := by
  intro ledger args
  unfold delMeaning
  split <;> rfl

theorem prints_mget : PrintsEvery mgetMeaning := by
  intro ledger args
  unfold mgetMeaning
  split <;> rfl

theorem prints_rename : PrintsEvery renameMeaning := by
  intro ledger args
  unfold renameMeaning
  split
  · split <;> rfl
  · rfl

theorem prints_msetnx : PrintsEvery msetnxMeaning := by
  intro ledger args
  rw [msetnxMeaning]
  split
  · rfl
  · split <;> rfl

/-- Where the server stops there is no answer to print. -/
theorem prints_rpoplpush : PrintsEvery rpoplpushMeaning := by
  intro ledger args
  unfold rpoplpushMeaning
  split
  · split
    · rfl
    · split
      · rfl
      · split <;> rfl
    · rfl
  · rfl

/-- The client has a text for every answer of every command of the ledger. -/
theorem CommandFunc.prints {func : CommandFunc} {meaning : Meaning}
    (meant : func.meaning = some meaning) : PrintsEvery meaning := by
  cases func <;> cases meant
  case del => exact prints_del
  case rename => exact prints_rename
  case mget => exact prints_mget
  case msetnx => exact prints_msetnx
  case rpoplpush => exact prints_rpoplpush
  case «exists» => exact prints_onKey fun _ => rfl
  case type => exact prints_onKey prints_typeEdit
  case get | strlen | hlen | llen | scard => exact prints_onKey (prints_reading rfl fun _ => rfl)
  case incr => exact prints_onKey (prints_incrbyEdit _)
  case rpop | lpop => exact prints_onKey (prints_popEdit _)
  case incrby => exact prints_onKeyAnd prints_incrbyEdit
  case set => exact prints_onKeyAnd fun _ _ => rfl
  case setnx => exact prints_onKeyAnd prints_setnxEdit
  case hget => exact prints_onKeyAnd prints_hgetEdit
  case lindex => exact prints_onKeyAnd prints_lindexEdit
  case hexists | sismember =>
    exact prints_onKeyAnd fun _ => prints_reading rfl fun _ => rfl
  case getrange | lrange =>
    exact prints_onKeyAndTwo fun _ _ => prints_withNumber fun _ =>
      prints_withNumber fun _ => prints_reading rfl fun _ => rfl
  case ltrim =>
    exact prints_onKeyAndTwo fun _ _ => prints_withNumber fun _ =>
      prints_withNumber fun _ => prints_editing rfl fun _ => rfl
  case lrem =>
    exact prints_onKeyAndTwo fun _ _ => prints_withNumber fun _ => prints_editing rfl fun _ => rfl
  case lset => exact prints_onKeyAndTwo prints_lsetEdit
  case hset => exact prints_onKeyAndTwo fun _ _ => prints_editing rfl fun _ => rfl
  case hsetnx => exact prints_onKeyAndTwo prints_hsetnxEdit
  case linsert => exact prints_onKeyAndThree prints_linsertEdit
  case hmget => exact prints_onKeyAndSome fun _ => prints_reading rfl fun _ => rfl
  case hmset => exact prints_onKeyAndPairs fun _ => prints_editing rfl fun _ => rfl
  case hdel | rpush | lpush | rpushx | lpushx | sadd | srem =>
    exact prints_onKeyAndSome fun _ => prints_editing rfl fun _ => rfl

end PseudoRedis
