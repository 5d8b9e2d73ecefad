/-
This file is about `INCRBY`, `DECRBY`, `INCR`, `DECR` and `HINCRBY`. Their helper computes
the reply with a C expression and the text it stores by other means: `bss_add_sub` if there
is a number already, the argument itself if there is none, and for a `DECRBY` without one a
`sprintf` with `"%d"`, which prints the low half of the number only.
-/

import PseudoRedis.AddSub
import PseudoRedis.Rename

namespace PseudoRedis

section Helper

variable {env : Env} {V : Type} {dict : Dict V} {key amount : Bss} {n : Int}

/-! ### The helper -/

theorem negatedArg_reads (env : Env) (proper : amount.Proper) (inRange : IsInt64 (-n)) :
    ∃ result, negatedArg env amount n = .ok result ∧ result.Proper ∧
      bss2int result = (toInt32 (-n), 0) := by
  have half := isInt64_toInt32 (-n)
  have printed : (sprintfLld (toInt32 (-n))).length ≤ bssMinLen :=
    Nat.le_trans (length_sprintfLld_le half) (by decide)
  obtain ⟨result, assigned, same⟩ := bssSet_in_place env env.fresh proper printed
  have grown := bssSet_grown proper.toEnded assigned
  refine ⟨result, ?_, grown.proper proper,
    bss2int_of_content grown.toEnded half (bssSet_content assigned)⟩
  unfold negatedArg
  rw [toInt64_of_isInt64 inRange, sprintfD, assigned]
  exact if_pos same

/-- One key has a new string. -/
structure Stores [StrObj V] (dict dict' : Dict V) (key bss : Bss) : Prop where
  placed : dict'.Placed
  self : dictLookUp dict' key = some (StrObj.bssCreateObj bss)
  others : ∀ other : Bss, other.Short → other.content ≠ key.content →
    dictLookUp dict' other = dictLookUp dict other

theorem dictAdd_stores [StrObj V] [DictVal V] (placed : dict.Placed) (short : key.Short)
    (absent : dictLookUp dict key = none) (bss : Bss) :
    Stores dict (dictAdd dict key (StrObj.bssCreateObj bss)) key bss := by
  refine ⟨dictAdd_placed placed short _, ?_, fun _ otherShort =>
    lookUp_dictAdd_of_ne placed short otherShort _⟩
  simp [placed.sized, absent]

theorem dictSetVal_stores [StrObj V] (placed : dict.Placed) (short : key.Short) {old : V}
    (answer : dictLookUp dict key = some old) (bss : Bss) :
    Stores dict (dictSetVal dict key (StrObj.bssCreateObj bss)) key bss :=
  ⟨dictSetVal_placed placed key _, lookUp_dictSetVal_self placed.sized answer _,
    fun _ otherShort => lookUp_dictSetVal_of_ne placed short otherShort _⟩

variable [StrObj V]

/-- The dictionary holds a number under a key, in a string; an absent key counts as zero. -/
inductive NumberIn (dict : Dict V) (key : Bss) : Option Bss → Int → Prop
  | absent (missing : dictLookUp dict key = none) : NumberIn dict key none 0
  | present {val : V} {bss : Bss} {old : Int} (answer : dictLookUp dict key = some val)
      (string : StrObj.string val = some bss) (proper : bss.Proper)
      (number : bss2int bss = (old, 0)) : NumberIn dict key (some bss) old

theorem NumberIn.unique {bss bss' : Bss} {first second : Int}
    (numberIn : NumberIn dict key (some bss) first)
    (other : NumberIn dict key (some bss') second) : first = second := by
  cases numberIn with
  | present answer string _ number =>
    cases other with
    | present answer' string' _ number' =>
      rw [answer, Option.some.injEq] at answer'
      rw [← answer', string, Option.some.injEq] at string'
      rw [← string', number] at number'
      exact congrArg Prod.fst number'

theorem signed_negOp (n : Int) : signed n negOp = -n := if_pos rfl

theorem signed_posOp (n : Int) : signed n posOp = n := if_neg (by decide)

/-- The helper replies with the sum and stores a string that is read as `stored`. -/
def Replies [DictVal V] (env : Env) (type : Int) (dict : Dict V) (key amount : Bss)
    (total stored : Int) : Prop :=
  ∃ dict' bss, decrbyincrbyCommandOn env type dict [key, amount] = intReply dict' total ∧
    Stores dict dict' key bss ∧ bss.Proper ∧ bss2int bss = (stored, 0)

variable [DictVal V]

/-- Without an old number `DECRBY` replies with the negated amount and stores half of it. -/
theorem replies_negated (env : Env) (placed : dict.Placed) (short : key.Short)
    (proper : amount.Proper) (number : bss2int amount = (n, 0)) (inRange : IsInt64 (-n))
    (absent : dictLookUp dict key = none) :
    Replies env negOp dict key amount (-n) (toInt32 (-n)) := by
  obtain ⟨bss, negated, bssProper, read⟩ := negatedArg_reads env proper inRange
  refine ⟨_, bss, ?_, dictAdd_stores placed short absent bss, bssProper, read⟩
  simp only [decrbyincrbyCommandOn, number, ne_eq, not_true_eq_false, if_false, absent, if_true,
    negated, toInt64_of_isInt64 inRange]

/-- Without an old number `INCRBY` replies with the amount and stores the argument. -/
theorem replies_argument (env : Env) (placed : dict.Placed) (short : key.Short)
    (proper : amount.Proper) (number : bss2int amount = (n, 0))
    (absent : dictLookUp dict key = none) : Replies env posOp dict key amount n n := by
  have notNegated : ¬ posOp = negOp := by decide
  refine ⟨_, amount, ?_, dictAdd_stores placed short absent amount, proper, number⟩
  simp only [decrbyincrbyCommandOn, number, ne_eq, not_true_eq_false, if_false, absent,
    if_neg notNegated]

/-- With an old number both reply with the sum and store it. -/
theorem replies_sum (env : Env) {type : Int} (typed : type = negOp ∨ type = posOp)
    (placed : dict.Placed) (short : key.Short) (number : bss2int amount = (n, 0))
    (inRange : IsInt64 (-n)) {val : V} {bss : Bss} {old : Int}
    (answer : dictLookUp dict key = some val) (string : StrObj.string val = some bss)
    (proper : bss.Proper) (oldNumber : bss2int bss = (old, 0))
    (sum : IsInt64 (old + signed n type)) :
    Replies env type dict key amount (old + signed n type) (old + signed n type) := by
  have range : IsInt64 n := by
    have read := isInt64_bss2int amount
    rwa [number] at read
  have oldRange : IsInt64 old := by
    have read := isInt64_bss2int bss
    rwa [oldNumber] at read
  have change : IsInt64 (signed n type) := by
    rcases typed with rfl | rfl
    · rwa [signed_negOp]
    · rwa [signed_posOp]
  have passed : ¬ overflows old (addend n type) := by
    rw [addend_eq change, overflows_iff oldRange change, not_not]
    exact sum
  obtain ⟨result, ran, resultProper, -, read⟩ :=
    bssAddSub_stores env env.fresh proper oldNumber passed
  rw [addend_eq change, add_comm, toInt64_of_isInt64 sum] at read
  have reply : toInt64 (if type = negOp then old - n else old + n) = old + signed n type := by
    rcases typed with rfl | rfl
    · rw [signed_negOp] at sum ⊢
      rw [if_pos rfl, Int.sub_eq_add_neg, toInt64_of_isInt64 sum]
    · rw [signed_posOp] at sum ⊢
      rw [if_neg (by decide), toInt64_of_isInt64 sum]
  refine ⟨_, result, ?_, dictSetVal_stores placed short answer result, resultProper, read⟩
  simp only [decrbyincrbyCommandOn, number, oldNumber, ne_eq, not_true_eq_false, if_false, answer,
    string, ran, reply]

/-- The helper replies with the sum, and the number it leaves is the sum unless it has printed one
that is no `int`. -/
theorem replies_number (env : Env) {type : Int} (typed : type = negOp ∨ type = posOp)
    (created : ∀ bss, StrObj.string (StrObj.bssCreateObj bss : V) = some bss)
    (placed : dict.Placed) (short : key.Short) (proper : amount.Proper)
    (number : bss2int amount = (n, 0)) (inRange : IsInt64 (-n)) {stored : Option Bss} {old : Int}
    (numberIn : NumberIn dict key stored old) (sum : IsInt64 (old + signed n type)) :
    ∃ dict' bss result,
      decrbyincrbyCommandOn env type dict [key, amount] = intReply dict' (old + signed n type) ∧
      dict'.Placed ∧ NumberIn dict' key (some bss) result ∧
      (result = old + signed n type ↔
        ¬ (type = negOp ∧ stored = none ∧ ¬ IsInt32 (signed n type))) := by
  have number_in {dict' : Dict V} {bss : Bss} {result : Int} (stores : Stores dict dict' key bss)
      (bssProper : bss.Proper) (read : bss2int bss = (result, 0)) :
      NumberIn dict' key (some bss) result :=
    .present stores.self (created bss) bssProper read
  cases numberIn with
  | absent missing =>
    rw [zero_add]
    rcases typed with rfl | rfl
    · obtain ⟨dict', bss, ran, stores, bssProper, read⟩ :=
        replies_negated env placed short proper number inRange missing
      rw [signed_negOp]
      refine ⟨dict', bss, _, ran, stores.placed, number_in stores bssProper read, ?_⟩
      rw [toInt32_eq_iff, and_iff_right rfl, and_iff_right rfl, not_not]
    · obtain ⟨dict', bss, ran, stores, bssProper, read⟩ :=
        replies_argument env placed short proper number missing
      rw [signed_posOp]
      exact ⟨dict', bss, _, ran, stores.placed, number_in stores bssProper read,
        iff_of_true rfl fun wrong => absurd wrong.1 (by decide)⟩
  | present answer string oldProper oldNumber =>
    obtain ⟨dict', bss, ran, stores, bssProper, read⟩ := replies_sum env typed placed short number
      inRange answer string oldProper oldNumber sum
    exact ⟨dict', bss, _, ran, stores.placed, number_in stores bssProper read,
      iff_of_true rfl fun wrong => by cases wrong.2.1⟩

end Helper

/-! ### The commands -/

/-- A command that changes a number, with its arguments. -/
inductive Counter where
  | incrby (key amount : Bss)
  | decrby (key amount : Bss)
  | incr (key : Bss)
  | decr (key : Bss)
  | hincrby (key field amount : Bss)

namespace Counter

def run (env : Env) (dict : Dict Obj) : Counter → Run Obj
  | incrby key amount => incrbyCommand env dict [key, amount]
  | decrby key amount => decrbyCommand env dict [key, amount]
  | incr key => incrCommand env dict [key]
  | decr key => decrCommand env dict [key]
  | hincrby key field amount => hincrbyCommand env dict [key, field, amount]

def key : Counter → Bss
  | incrby key _ | decrby key _ | incr key | decr key | hincrby key _ _ => key

/-- The field of a hash the number is in. -/
def field : Counter → Option Bss
  | hincrby _ field _ => some field
  | _ => none

def type : Counter → Int
  | decrby _ _ | decr _ => negOp
  | _ => posOp

/-- The amount: an argument, or the string `INCR` and `DECR` make. -/
def amount (env : Env) : Counter → Bss
  | incrby _ amount | decrby _ amount | hincrby _ _ amount => amount
  | incr _ | decr _ => bssCreate env env.fresh (bytes "1")

/-- The surroundings of the helper. -/
def inner (env : Env) : Counter → Env
  | incr _ | decr _ => env.next
  | _ => env

/-- `INCRBY` or `HINCRBY` on the same number. -/
def again (amount : Bss) : Counter → Counter
  | hincrby key field _ => hincrby key field amount
  | incrby key _ | decrby key _ | incr key | decr key => incrby key amount

end Counter

/-- The number of a counter is in a string, or counts as zero: under the key, or in a field of the
hash under the key. -/
inductive NumberAt (dict : Dict Obj) (key : Bss) : Option Bss → Option Bss → Int → Prop
  | key {stored : Option Bss} {old : Int} (number : NumberIn dict key stored old) :
      NumberAt dict key none stored old
  | newHash (field : Bss) (missing : dictLookUp dict key = none) :
      NumberAt dict key (some field) none 0
  | hash {field : Bss} {hash : Dict Bss} {stored : Option Bss} {old : Int}
      (answer : dictLookUp dict key = some (.hash hash)) (placed : hash.Placed)
      (number : NumberIn hash field stored old) : NumberAt dict key (some field) stored old

/-- A counter that can be served: its amount is a number with a negation, and the sum with its old
number is a `long long`. -/
structure Counter.Ready (env : Env) (dict : Dict Obj) (counter : Counter) (stored : Option Bss)
    (old n : Int) : Prop where
  placed : dict.Placed
  short : counter.key.Short
  fieldShort : ∀ field, counter.field = some field → field.Short
  number : NumberAt dict counter.key counter.field stored old
  proper : (counter.amount env).Proper
  amount : bss2int (counter.amount env) = (n, 0)
  negation : IsInt64 (0 - n)
  sum : IsInt64 (old + signed n counter.type)

/-- The command replies with the sum, the string it leaves is read as the sum, and adding nothing
gives the same reply. -/
def Counter.Counts (env : Env) (dict : Dict Obj) (counter : Counter) (total : Int) : Prop :=
  ∃ dict' bss, counter.run env dict = intReply dict' total ∧
    NumberAt dict' counter.key counter.field (some bss) total ∧
    ∀ env' zero, zero.Proper → bss2int zero = (0, 0) →
      ∃ dict'', (counter.again zero).run env' dict' = intReply dict'' total

/-- What a run of a counter leaves: some number, which is the sum unless a negated amount was
printed that is no `int`. -/
def Counter.Leaves (env : Env) (dict : Dict Obj) (counter : Counter) (stored : Option Bss)
    (total change : Int) : Prop :=
  ∃ dict' bss result, counter.run env dict = intReply dict' total ∧ dict'.Placed ∧
    NumberAt dict' counter.key counter.field (some bss) result ∧
    (result = total ↔ ¬ (counter.type = negOp ∧ stored = none ∧ ¬ IsInt32 change))

variable {env : Env} {dict : Dict Obj} {counter : Counter} {stored : Option Bss} {old n : Int}

theorem Counter.type_cases (counter : Counter) : counter.type = negOp ∨ counter.type = posOp := by
  cases counter with
  | incrby key amount => exact Or.inr rfl
  | decrby key amount => exact Or.inl rfl
  | incr key => exact Or.inr rfl
  | decr key => exact Or.inl rfl
  | hincrby key field amount => exact Or.inr rfl

theorem Counter.run_eq (env : Env) (dict : Dict Obj) (plain : counter.field = none) :
    counter.run env dict = decrbyincrbyCommandOn (counter.inner env) counter.type dict
      [counter.key, counter.amount env] := by
  cases counter with
  | incrby key amount => rfl
  | decrby key amount => rfl
  | incr key => rfl
  | decr key => rfl
  | hincrby key field amount => cases plain

theorem Counter.Ready.leaves_key (ready : counter.Ready env dict stored old n)
    (plain : counter.field = none) :
    counter.Leaves env dict stored (old + signed n counter.type) (signed n counter.type) := by
  obtain ⟨placed, short, -, number, proper, amount, negation, sum⟩ := ready
  rw [Int.zero_sub] at negation
  rw [plain] at number
  cases number with
  | key numberIn =>
    obtain ⟨dict', bss, result, ran, placed', left, exactly⟩ := replies_number (counter.inner env)
      counter.type_cases (fun _ => rfl) placed short proper amount negation numberIn sum
    refine ⟨dict', bss, result, (Counter.run_eq env dict plain).trans ran, placed', ?_, exactly⟩
    rw [plain]
    exact .key left

theorem hincrbyCommand_absent {key field amount : Bss} {hash' : Dict Bss} {total : Int}
    (missing : dictLookUp dict key = none)
    (ran : incrbyCommandOn env (dictCreate newDictPow : Dict Bss) [field, amount] =
      intReply hash' total) :
    hincrbyCommand env dict [key, field, amount] =
      intReply (putBack Kind.hash (addHash dict key) key hash') total := by
  simp only [hincrbyCommand, missing, ran]
  rfl

theorem hincrbyCommand_present {key field amount : Bss} {hash hash' : Dict Bss} {total : Int}
    (answer : dictLookUp dict key = some (.hash hash))
    (ran : incrbyCommandOn env hash [field, amount] = intReply hash' total) :
    hincrbyCommand env dict [key, field, amount] =
      intReply (putBack Kind.hash dict key hash') total := by
  simp only [hincrbyCommand, answer, ran]
  rfl

theorem Counter.Ready.leaves_field {key field amount : Bss}
    (ready : (Counter.hincrby key field amount).Ready env dict stored old n) :
    (Counter.hincrby key field amount).Leaves env dict stored (old + signed n posOp)
      (signed n posOp) := by
  obtain ⟨placed, short, fieldShort, number, proper, number', negation, sum⟩ := ready
  rw [Int.zero_sub] at negation
  have counts {hash : Dict Bss} (hashPlaced : hash.Placed)
      (numberIn : NumberIn hash field stored old) :=
    replies_number env (Or.inr rfl) (fun _ => rfl) hashPlaced (fieldShort field rfl) proper number'
      negation numberIn sum
  rw [Counter.Leaves, Counter.run]
  cases number with
  | newHash _ missing =>
    have created : (dictCreate newDictPow : Dict Bss).Placed :=
      (dictCreate_wellFormed (by decide)).toPlaced
    obtain ⟨hash', bss, result, ran, hashPlaced', left, exactly⟩ := counts created (.absent rfl)
    have added := dictAdd_placed placed short (.hash (dictCreate newDictPow))
    refine ⟨putBack Kind.hash (addHash dict key) key hash', bss, result, ?_,
      dictSetVal_placed added key _, .hash ?_ hashPlaced' left, exactly⟩
    · exact hincrbyCommand_absent missing ran
    · exact lookUp_dictSetVal_self added.sized (lookUp_dictAdd_self placed.sized key _) _
  | hash answer hashPlaced numberIn =>
    obtain ⟨hash', bss, result, ran, hashPlaced', left, exactly⟩ := counts hashPlaced numberIn
    refine ⟨putBack Kind.hash dict key hash', bss, result, ?_, dictSetVal_placed placed key _,
      .hash (lookUp_dictSetVal_self placed.sized answer _) hashPlaced' left, exactly⟩
    exact hincrbyCommand_present answer ran

theorem Counter.Ready.leaves (ready : counter.Ready env dict stored old n) :
    counter.Leaves env dict stored (old + signed n counter.type) (signed n counter.type) := by
  cases counter with
  | incrby key amount => exact ready.leaves_key rfl
  | decrby key amount => exact ready.leaves_key rfl
  | incr key => exact ready.leaves_key rfl
  | decr key => exact ready.leaves_key rfl
  | hincrby key field amount => exact ready.leaves_field

theorem NumberAt.unique {key : Bss} {field : Option Bss} {bss bss' : Bss} {first second : Int}
    (numberAt : NumberAt dict key field (some bss) first)
    (other : NumberAt dict key field (some bss') second) : first = second := by
  cases numberAt with
  | key number =>
    cases other with
    | key number' => exact number.unique number'
  | hash answer _ number =>
    cases other with
    | hash answer' _ number' =>
      rw [answer] at answer'
      cases answer'
      exact number.unique number'

theorem Counter.again_key (counter : Counter) (zero : Bss) :
    (counter.again zero).key = counter.key ∧ (counter.again zero).field = counter.field ∧
      (counter.again zero).type = posOp := by
  cases counter with
  | incrby key amount => exact ⟨rfl, rfl, rfl⟩
  | decrby key amount => exact ⟨rfl, rfl, rfl⟩
  | incr key => exact ⟨rfl, rfl, rfl⟩
  | decr key => exact ⟨rfl, rfl, rfl⟩
  | hincrby key field amount => exact ⟨rfl, rfl, rfl⟩

theorem Counter.again_amount (counter : Counter) (env : Env) (zero : Bss) :
    (counter.again zero).amount env = zero := by
  cases counter with
  | incrby key amount => rfl
  | decrby key amount => rfl
  | incr key => rfl
  | decr key => rfl
  | hincrby key field amount => rfl

/-- Adding nothing to a number replies with the number. -/
theorem Counter.again_replies (short : counter.key.Short)
    (fieldShort : ∀ field, counter.field = some field → field.Short) {dict' : Dict Obj}
    (placed : dict'.Placed) {bss zero : Bss} {total : Int} (inRange : IsInt64 total)
    (left : NumberAt dict' counter.key counter.field (some bss) total) (proper : zero.Proper)
    (nothing : bss2int zero = (0, 0)) (env' : Env) :
    ∃ dict'', (counter.again zero).run env' dict' = intReply dict'' total := by
  obtain ⟨sameKey, sameField, type⟩ := counter.again_key zero
  have ready : (counter.again zero).Ready env' dict' (some bss) total 0 := by
    refine ⟨placed, sameKey ▸ short, sameField ▸ fieldShort, sameKey ▸ sameField ▸ left, ?_, ?_,
      ⟨by decide, by decide⟩, ?_⟩
    · rwa [counter.again_amount]
    · rwa [counter.again_amount]
    · rwa [type, signed_posOp, add_zero]
  obtain ⟨dict'', -, -, ran, -⟩ := ready.leaves
  rw [type, signed_posOp, add_zero] at ran
  exact ⟨dict'', ran⟩

/-- The reply, the stored string and the sum are one number, except for a `DECRBY` without an old
number whose negated amount is no `int`. -/
theorem counter_counts_iff (env : Env) (dict : Dict Obj) (counter : Counter) (stored : Option Bss)
    (old n : Int) (ready : counter.Ready env dict stored old n) :
    counter.Counts env dict (old + signed n counter.type) ↔
      ¬ (counter.type = negOp ∧ stored = none ∧ ¬ IsInt32 (signed n counter.type)) := by
  obtain ⟨dict', bss, result, ran, placed, left, exactly⟩ := ready.leaves
  rw [← exactly]
  constructor
  · rintro ⟨own, bss', same, found, -⟩
    rw [← dict_of_intReply (Shared.holding []) (ran.symm.trans same)] at found
    exact left.unique found
  · rintro rfl
    exact ⟨dict', bss, ran, left, fun env' zero proper nothing =>
      Counter.again_replies ready.short ready.fieldShort placed ready.sum left proper nothing env'⟩

/-- `DECRBY` of a text in an empty key space. -/
theorem decrby_ready {text : String} {n : Int} (number : bss2int (textArg 2 text) = (n, 0))
    (negation : IsInt64 (0 - n)) :
    (Counter.decrby (textArg 1 "k") (textArg 2 text)).Ready Env.plain (dictCreate initDictSize)
      none 0 n where
  placed := (dictCreate_wellFormed (by decide)).toPlaced
  short := (textArg_arg 1 (by decide)).short
  fieldShort := by
    intro field some
    cases some
  number := .key (.absent rfl)
  proper := bssCreate_proper Env.plain 2 (bytes text)
  amount := number
  negation := negation
  sum := negation

/-- `DECRBY k 5` without an old number. -/
theorem counter_counts_iff_five :
    (Counter.decrby (textArg 1 "k") (textArg 2 "5")).Counts Env.plain (dictCreate initDictSize)
      (0 + signed 5 negOp) :=
  (counter_counts_iff Env.plain (dictCreate initDictSize) _ none 0 5
    (decrby_ready rfl ⟨by decide, by decide⟩)).mpr fun wrong => wrong.2.2 ⟨by decide, by decide⟩

/-- What the argument of `DECRBY k 4294967296` becomes. -/
def printedHalf : Bss :=
  ⟨2, 1, 21, bytes "0" ++ 0 :: bytes "94967296" ++ List.replicate 13 0⟩

/-- The key space after that. -/
def printedKey : Dict Obj :=
  dictAdd (dictCreate initDictSize) (textArg 1 "k") (.string printedHalf)

/-- `DECRBY k 4294967296` without an old number replies with the negated amount and stores `0`. -/
theorem counter_stores_half :
    ∃ (env : Env) (dict : Dict Obj) (key amount : Bss), Reachable (fun _ _ => True) dict ∧
      (Counter.decrby key amount).Ready env dict none 0 4294967296 ∧
      ¬ (Counter.decrby key amount).Counts env dict (0 + signed 4294967296 negOp) ∧
      ∃ dict' bss, decrbyCommand env dict [key, amount] = intReply dict' (-4294967296) ∧
        dictLookUp dict' key = some (.string bss) ∧ bss.content = bytes "0" := by
  have ran : decrbyCommand Env.plain (dictCreate initDictSize)
      [textArg 1 "k", textArg 2 "4294967296"] = intReply printedKey (-4294967296) := rfl
  have found : dictLookUp printedKey (textArg 1 "k") = some (.string printedHalf) := rfl
  refine ⟨Env.plain, dictCreate initDictSize, textArg 1 "k", textArg 2 "4294967296", .start,
    decrby_ready rfl ⟨by decide, by decide⟩, ?_, printedKey, printedHalf, ran, found, rfl⟩
  rintro ⟨dict', bss, same, left, -⟩
  rw [← dict_of_intReply (Shared.holding []) (ran.symm.trans same)] at left
  have printed : NumberAt printedKey (textArg 1 "k") none (some printedHalf) 0 :=
    .key (.present found rfl ⟨⟨by decide, rfl⟩, by decide⟩ rfl)
  exact absurd (left.unique printed) (by decide)

end PseudoRedis
