/-
This file says when a key space keeps a ledger: every key that is not too long holds an
object with the value the ledger has, and none if the ledger has none. Strings are kept
with the zero behind them, so that the numbers they spell can be read.

A command that names one key is followed in two steps. What it reports and what the key
holds afterwards is shown for each handler; that no other key is touched and that the
key space stays sound follows from the footprint and the effect of the command.
-/

import PseudoRedis.Counters
import PseudoRedis.Reporting

namespace PseudoRedis

/-! ### Arguments and numbers -/

/-- An argument as it is cut out of a request. -/
structure Bss.Given (bss : Bss) : Prop where
  arg : bss.Arg
  proper : bss.Proper

theorem Bss.Given.short {bss : Bss} (given : bss.Given) : bss.Short := given.arg.short

/-- A zero ends the characters of a class that it is not in. -/
theorem takeWhile_ended {p : UInt8 → Bool} (zero : p 0 = false) (text rest : Bytes) :
    (text ++ 0 :: rest).takeWhile p = text.takeWhile p := by
  induction text with
  | nil => exact List.takeWhile_cons_of_neg (by rw [zero]; exact Bool.false_ne_true)
  | cons char text inductionHypothesis =>
    rw [List.cons_append, List.takeWhile_cons, List.takeWhile_cons, inductionHypothesis]

theorem dropWhile_ended {p : UInt8 → Bool} (zero : p 0 = false) (text rest : Bytes) :
    (text ++ 0 :: rest).dropWhile p = text.dropWhile p ++ 0 :: rest := by
  induction text with
  | nil => exact List.dropWhile_cons_of_neg (by rw [zero]; exact Bool.false_ne_true)
  | cons char text inductionHypothesis =>
    rw [List.cons_append, List.dropWhile_cons, List.dropWhile_cons, inductionHypothesis]
    split <;> rfl

/-- `strtoll` does not look behind the zero. -/
theorem strtoll_ended (text rest : Bytes) : strtoll (text ++ 0 :: rest) = strtoll text := by
  have blank : isspace 0 = false := by decide
  have digits : isdigit 0 = false := by decide
  simp only [strtoll, takeWhile_ended blank, dropWhile_ended blank]
  cases text.dropWhile isspace with
  | nil => rfl
  | cons char others =>
    -- the sign is looked for in the first character, which both texts share
    show strtollDigits _ _ _ ((if some char == some 45 || some char == some 43 then
        others ++ 0 :: rest else char :: others ++ 0 :: rest).takeWhile isdigit) =
      strtollDigits _ _ _ ((if some char == some 45 || some char == some 43 then
        others else char :: others).takeWhile isdigit)
    split
    · rw [takeWhile_ended digits]
      rfl
    · rw [takeWhile_ended digits]
      rfl

/-- `bss2int` reads the number a text spells, and refuses any other text. -/
theorem bss2int_spelled {bss : Bss} (ended : bss.Ended) :
    (spelled bss.content = none ∧ (bss2int bss).2 ≠ 0) ∨
      ∃ n, spelled bss.content = some n ∧ bss2int bss = (n, 0) := by
  obtain ⟨rest, str, len⟩ := ended.str_eq
  have empty : bss.content = [] ↔ bss.len = 0 := by rw [len, List.length_eq_zero_iff]
  simp only [spelled, bss2int, empty]
  rw [str, strtoll_ended, len]
  obtain ⟨value, consumed, erange⟩ := strtoll bss.content
  split
  · exact Or.inr ⟨0, rfl, rfl⟩
  · split
    · exact Or.inl ⟨rfl, (by decide : eInvInt ≠ 0)⟩
    · exact Or.inr ⟨value, rfl, rfl⟩

/-! ### What a key holds -/

/-- An object is a value. -/
inductive Obj.Denotes : Obj → Datum → Prop
  | string {bss : Bss} (short : bss.Short) (proper : bss.Proper) :
      Obj.Denotes (.string bss) (.string bss.content)
  | list {entries : List Bss} (short : ∀ entry ∈ entries, entry.Short) :
      Obj.Denotes (.list entries) (.list (entries.map Bss.content))
  | hash {hash : Dict Bss} {fields : Fields} (wellFormed : hash.WellFormed)
      (agree : Matches hash fields) : Obj.Denotes (.hash hash) (.hash fields)
  | set {set : Dict Unit} (wellFormed : set.WellFormed) :
      Obj.Denotes (.set set) (.set (members set))

/-- The key holds this value. -/
inductive Known (dict : Dict Obj) (key : Bss) : Option Datum → Prop
  | absent (answer : dictLookUp dict key = none) : Known dict key none
  | present {obj : Obj} {datum : Datum} (answer : dictLookUp dict key = some obj)
      (denotes : obj.Denotes datum) : Known dict key (some datum)

variable {dict dict' : Dict Obj} {key : Bss} {value : Option Datum} {told : Told} {env : Env}

/-- Only the look-up matters. -/
theorem Known.congr {other : Bss} (known : Known dict key value)
    (same : dictLookUp dict' other = dictLookUp dict key) : Known dict' other value := by
  cases known with
  | absent answer => exact .absent (same.trans answer)
  | present answer denotes => exact .present (same.trans answer) denotes

theorem Known.isSome (known : Known dict key value) :
    (dictLookUp dict key).isSome = value.isSome := by
  cases known with
  | absent answer => rw [answer]; rfl
  | present answer denotes => rw [answer]; rfl

theorem Known.objType (known : Known dict key value) :
    objType (dictLookUp dict key) = datumType value := by
  cases known with
  | absent answer => rw [answer]; rfl
  | present answer denotes => rw [answer]; cases denotes <;> rfl

/-- The run leaves the value of the outcome under the key, and reports its answer. -/
def Realises (run : Run Obj) (key : Bss) (outcome : Option Datum × Told) : Prop :=
  ∃ dict', Reports run dict' outcome.2 ∧ Known dict' key outcome.1

theorem realises_same {run : Run Obj} (known : Known dict key value)
    (reports : Reports run dict told) : Realises run key (value, told) := ⟨dict, reports, known⟩

/-- A refusal changes nothing. -/
theorem realises_fail {run : Run Obj} {s : String} [ErrorText s] (known : Known dict key value)
    (ran : run = failReply dict s) : Realises run key (value, .error s) :=
  realises_same known (ran ▸ reports_fail dict s)

/-- An object is added under a key that may be there. -/
theorem lookUp_added (sized : dict.Sized) (key : Bss) (obj : Obj) :
    dictLookUp (dictAdd dict key obj) key = some obj := by
  rw [lookUp_dictAdd_self sized]
  cases dictLookUp dict key <;> rfl

/-! ### Values of one type -/

/-- A type of values: its objects, and what is in them. -/
structure View (Raw Content : Type) where
  obj : Raw → Obj
  unwrap : Datum → Option Content
  Means : Raw → Content → Prop
  sorted : ∀ {obj' : Obj} {datum : Datum}, obj'.Denotes datum →
    (∃ raw content, obj' = obj raw ∧ unwrap datum = some content ∧ Means raw content) ∨
      ((∀ raw, obj' ≠ obj raw) ∧ unwrap datum = none)

def stringView : View Bss Bytes where
  obj := .string
  unwrap := Datum.text
  Means bss data := bss.Short ∧ bss.Proper ∧ data = bss.content
  sorted denotes := by
    cases denotes with
    | string short proper => exact Or.inl ⟨_, _, rfl, rfl, short, proper, rfl⟩
    | list | hash | set => exact Or.inr ⟨fun _ => Obj.noConfusion, rfl⟩

def listView : View (List Bss) (List Bytes) where
  obj := .list
  unwrap := Datum.entries
  Means entries data := (∀ entry ∈ entries, entry.Short) ∧ data = entries.map Bss.content
  sorted denotes := by
    cases denotes with
    | list short => exact Or.inl ⟨_, _, rfl, rfl, short, rfl⟩
    | string | hash | set => exact Or.inr ⟨fun _ => Obj.noConfusion, rfl⟩

def hashView : View (Dict Bss) Fields where
  obj := .hash
  unwrap := Datum.fields
  Means hash fields := hash.WellFormed ∧ Matches hash fields
  sorted denotes := by
    cases denotes with
    | hash wellFormed agree => exact Or.inl ⟨_, _, rfl, rfl, wellFormed, agree⟩
    | string | list | set => exact Or.inr ⟨fun _ => Obj.noConfusion, rfl⟩

def setView : View (Dict Unit) (Finset Bytes) where
  obj := .set
  unwrap := Datum.members
  Means set data := set.WellFormed ∧ data = members set
  sorted denotes := by
    cases denotes with
    | set wellFormed => exact Or.inl ⟨_, _, rfl, rfl, wellFormed, rfl⟩
    | string | list | hash => exact Or.inr ⟨fun _ => Obj.noConfusion, rfl⟩

variable {Raw Content : Type}

/-- A command that changes a value of one type refuses a value of another. -/
theorem View.edits (view : View Raw Content) {run : Run Obj} {absent : Option Datum × Told}
    {present : Content → Option Datum × Told} (known : Known dict key value)
    (gone : dictLookUp dict key = none → Realises run key absent)
    (wrong : ∀ obj, dictLookUp dict key = some obj → (∀ raw, obj ≠ view.obj raw) →
      Reports run dict (.error wrongType))
    (there : ∀ raw content, dictLookUp dict key = some (view.obj raw) → view.Means raw content →
      Realises run key (present content)) :
    Realises run key (editing view.unwrap absent present value) := by
  cases known with
  | absent answer => exact gone answer
  | present answer denotes =>
    rcases view.sorted denotes with ⟨raw, content, rfl, unwraps, means⟩ | ⟨other, unwraps⟩
    · rw [editing, unwraps]
      exact there raw content answer means
    · rw [editing, unwraps]
      exact realises_same (.present answer denotes) (wrong _ answer other)

theorem View.reads (view : View Raw Content) {run : Run Obj} {absent : Told}
    {present : Content → Told} (known : Known dict key value)
    (gone : dictLookUp dict key = none → Reports run dict absent)
    (wrong : ∀ obj, dictLookUp dict key = some obj → (∀ raw, obj ≠ view.obj raw) →
      Reports run dict (.error wrongType))
    (there : ∀ raw content, dictLookUp dict key = some (view.obj raw) → view.Means raw content →
      Reports run dict (present content)) :
    Realises run key (reading view.unwrap absent present value) := by
  cases known with
  | absent answer => exact realises_same (.absent answer) (gone answer)
  | present answer denotes =>
    rcases view.sorted denotes with ⟨raw, content, rfl, unwraps, means⟩ | ⟨other, unwraps⟩
    · rw [reading, unwraps]
      exact realises_same (.present answer denotes) (there raw content answer means)
    · rw [reading, unwraps]
      exact realises_same (.present answer denotes) (wrong _ answer other)

/-- A command whose argument is checked before the key is looked up. -/
theorem realises_withNumber {run : Run Obj} {arg : Bss} {edit : Int → Edit} (ended : arg.Ended)
    (known : Known dict key value)
    (refuses : (bss2int arg).2 ≠ 0 → run = failReply dict invInt)
    (accepts : ∀ n, bss2int arg = (n, 0) → Realises run key (edit n value)) :
    Realises run key (withNumber arg.content edit value) := by
  rcases bss2int_spelled ended with ⟨none, refused⟩ | ⟨n, some, number⟩
  · rw [withNumber, none]
    exact realises_fail known (refuses refused)
  · rw [withNumber, some]
    exact accepts n number

theorem realises_withNumbers {run : Run Obj} {first last : Bss} {edit : Int → Int → Edit}
    (firstEnded : first.Ended) (lastEnded : last.Ended) (known : Known dict key value)
    (refuses : (bss2int first).2 ≠ 0 ∨ (bss2int last).2 ≠ 0 → run = failReply dict invInt)
    (accepts : ∀ a b, bss2int first = (a, 0) → bss2int last = (b, 0) →
      Realises run key (edit a b value)) :
    Realises run key
      (withNumber first.content (fun a => withNumber last.content (edit a)) value) :=
  realises_withNumber firstEnded known (fun refused => refuses (Or.inl refused))
    fun a firstNumber => realises_withNumber lastEnded known
      (fun refused => refuses (Or.inr refused)) fun b lastNumber =>
        accepts a b firstNumber lastNumber

/-! ### Sound key spaces -/

/-- The containers hold something, and no two allocations are the same; there are less than the half
of all addresses, since an allocation takes more than one byte. -/
structure Tidy (dict : Dict Obj) : Prop where
  sound : Sound False dict
  once : dict.ids.Nodup
  addressed : ∀ id ∈ dict.ids, id < 2 ^ 63

theorem Tidy.placed (tidy : Tidy dict) : dict.Placed := tidy.sound.placed

theorem Tidy.sized (tidy : Tidy dict) : dict.Sized := tidy.placed.sized

theorem tidy_create : Tidy (dictCreate initDictSize) :=
  ⟨sound_create False (by decide), by simp, by simp⟩

theorem Tidy.filled (tidy : Tidy dict) {entries : List Bss}
    (answer : dictLookUp dict key = some (.list entries)) : entries ≠ [] :=
  (tidy.sound.list answer).1.resolve_left id

/-- The entries of a list are different allocations. -/
theorem Tidy.few (tidy : Tidy dict) {entries : List Bss}
    (answer : dictLookUp dict key = some (.list entries)) : entries.length < 2 ^ 63 := by
  obtain ⟨entry, others, same, found⟩ := found_of_lookUp tidy.sized answer
  have ids : Store.ids entry.val = entries.map Bss.id := by rw [same]; rfl
  have nodup : (entry.key.id :: entries.map Bss.id).Nodup := by
    refine List.nodup_iff_count_le_one.mpr fun id => ?_
    have whole := List.nodup_iff_count_le_one.mp tidy.once id
    rw [count_ids_cons found.entries, ids] at whole
    exact Nat.le_trans (Nat.le_add_right _ _) whole
  have inside : ∀ id ∈ entry.key.id :: entries.map Bss.id, 0 ≤ id ∧ id < 2 ^ 63 := by
    intro id member
    refine ⟨Nat.zero_le id, tidy.addressed id (mem_ids.mpr ⟨entry, ?_, ?_⟩)⟩
    · exact found.entries.mem_iff.mpr List.mem_cons_self
    · rw [ids]
      exact List.mem_cons.mp member
  have few := length_le_of_addressed nodup inside
  rw [List.length_cons, List.length_map] at few
  exact few

/-- The addresses a command can take for its arguments and for what it allocates itself. -/
structure Roomy (dict : Dict Obj) (taken : List Nat) : Prop where
  once : taken.Nodup
  below : ∀ id ∈ taken, id < 2 ^ 63
  unheld : ∀ id ∈ taken, id ∉ dict.ids

theorem Roomy.sublist {fewer taken : List Nat} (roomy : Roomy dict taken)
    (sub : fewer.Sublist taken) : Roomy dict fewer :=
  ⟨roomy.once.sublist sub, fun id member => roomy.below id (sub.subset member),
    fun id member => roomy.unheld id (sub.subset member)⟩

theorem Tidy.change {taken : List Nat} (tidy : Tidy dict) (roomy : Roomy dict taken)
    (sound : Sound False dict')
    (conserve : ∀ id, dict'.ids.count id ≤ dict.ids.count id + taken.count id) : Tidy dict' := by
  refine ⟨sound, nodup_of_conserve conserve tidy.once roomy.once roomy.unheld, fun id member => ?_⟩
  rcases mem_of_conserve conserve member with old | new
  · exact tidy.addressed id old
  · exact roomy.below id new

/-! ### Key spaces that keep a ledger -/

/-- Every key that is not too long holds what the ledger has. -/
def Mirrors (dict : Dict Obj) (ledger : Ledger) : Prop :=
  ∀ key : Bss, key.Short → Known dict key (ledger key.content)

variable {ledger ledger' : Ledger}

theorem Mirrors.update (holds : Mirrors dict ledger) (placed : dict'.Placed) (short : key.Short)
    (known : Known dict' key value)
    (others : ∀ other : Bss, other.Short → other.content ≠ key.content →
      dictLookUp dict' other = dictLookUp dict other) :
    Mirrors dict' (Function.update ledger key.content value) := by
  intro other otherShort
  by_cases same : other.content = key.content
  · rw [same, Function.update_self]
    exact known.congr (lookUp_of_content placed short otherShort same)
  · rw [Function.update_of_ne same]
    exact (holds other otherShort).congr (others other otherShort same)

structure Keeps (dict : Dict Obj) (ledger : Ledger) : Prop extends Tidy dict where
  holds : Mirrors dict ledger

theorem keeps_create : Keeps (dictCreate initDictSize) fun _ => none := by
  refine ⟨tidy_create, fun key short => .absent ?_⟩
  rw [lookUp_eq_toMap tidy_create.placed short, toMap_dictCreate]

/-- A command leaves a key space that keeps the next ledger, and reports the answer, or it stops the
server as the ledger says. -/
def Follows (run : Run Obj) : Outcome → Prop
  | .goesOn ledger told => ∃ dict', Reports run dict' told ∧ Keeps dict' ledger
  | .stops => ∀ sh, run sh = .error .freedTwice

/-- A command with arguments and allocations of its own, on a key space that keeps a ledger. -/
structure Admitted (func : CommandFunc) (env : Env) (dict : Dict Obj) (ledger : Ledger)
    (args : List Bss) : Prop where
  keeps : Keeps dict ledger
  given : ∀ arg ∈ args, arg.Given
  roomy : Roomy dict (spent env args)
  fills : ¬ func.Empties env dict args
  part : func.whole = false

variable {func : CommandFunc} {args : List Bss}

/-- Every answer of a command comes with a tidy key space, in which the keys it does not name are as
before. -/
theorem Admitted.frame (admitted : Admitted func env dict ledger args)
    (reports : Reports (func.run env dict args) dict' told) :
    Tidy dict' ∧ ∀ key : Bss, key.Short → key.content ∉ (func.named args).map Bss.content →
      dictLookUp dict' key = dictLookUp dict key := by
  have tidy := admitted.keeps.toTidy
  obtain ⟨sh', ret, ran, -⟩ := reports (Shared.holding [])
  have tidy' : Tidy dict' := by
    obtain ⟨fill, answer, sh, effect, -⟩ :=
      (func.does (L := True) tidy.sound (fun arg member => (admitted.given arg member).arg)
        (fun empties => absurd empties admitted.fills) fun _ => trivial).result ran
    exact tidy.change admitted.roomy effect.sound fun id =>
      Nat.le_of_add_right_le (effect.conserve id)
  refine ⟨tidy', fun key short other => ?_⟩
  have own : ∀ key ∈ func.named args,
      Belongs {place | place ∈ (func.named args).map Bss.content} key := fun key member =>
    ⟨List.mem_map_of_mem member, (admitted.given key (named_subset func member)).short⟩
  have matched : Matched True {place | place ∈ (func.named args).map Bss.content} dict dict
      (func.run env dict args) (func.run env dict args) :=
    func.matched admitted.part (fun _ => trivial)
      (Twin.start tidy.placed tidy.placed fun _ _ => rfl) own
  rcases matched (Shared.holding []) with ⟨stop, failed, -⟩ | ⟨one, two, sh, ret', same, -, -, twin⟩
  · rw [failed] at ran
    cases ran
  · rw [same] at ran
    cases ran
    rw [lookUp_eq_toMap tidy'.placed short, lookUp_eq_toMap tidy.placed short]
    exact twin.oneFrame other

theorem Admitted.follows (admitted : Admitted func env dict ledger args)
    (reports : Reports (func.run env dict args) dict' told) (holds : Mirrors dict' ledger') :
    Follows (func.run env dict args) (.goesOn ledger' told) :=
  ⟨dict', reports, (admitted.frame reports).1, holds⟩

/-- A command that only reads. -/
theorem Admitted.reads (admitted : Admitted func env dict ledger args)
    (reports : Reports (func.run env dict args) dict told) :
    Follows (func.run env dict args) (.goesOn ledger told) := ⟨dict, reports, admitted.keeps⟩

/-- A command that refuses its arguments. -/
theorem Admitted.refuses (admitted : Admitted func env dict ledger args)
    (ran : func.run env dict args = failReply dict numArgs) :
    Follows (func.run env dict args) (refuse ledger) :=
  admitted.reads (ran ▸ reports_fail dict numArgs)

/-- A command on one key. -/
theorem Admitted.edits (admitted : Admitted func env dict ledger args)
    (named : func.named args = [key]) {edit : Edit}
    (realises : Realises (func.run env dict args) key (edit (ledger key.content))) :
    Follows (func.run env dict args) (ledger.edit key.content edit) := by
  obtain ⟨dict', reports, known⟩ := realises
  obtain ⟨tidy, frame⟩ := admitted.frame reports
  have short := (admitted.given key (named_subset func (named ▸ List.mem_singleton_self key))).short
  refine admitted.follows reports (admitted.keeps.holds.update tidy.placed short known
    fun other otherShort different => frame other otherShort fun inside => different ?_)
  rw [named] at inside
  exact List.mem_singleton.mp inside

end PseudoRedis
