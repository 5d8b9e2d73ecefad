/-
This file proves how long the text of `HINCRBYFLOAT` gets. It goes to a local buffer of
`BSS_LDB_LEN` bytes, a length made for integers of sixty-four bits, and neither the argument
nor the sum is compared with anything before it is printed. The text fits if the number has
at most twenty characters before the point. The numbers that are summed tell whether it has:
around the two bounds the long doubles are integers, one and eight apart, and the sum is the
one nearest to the exact sum.
-/

import PseudoRedis.NonEmpty
import PseudoRedis.FloatText

namespace PseudoRedis

/-! ### Sums -/

namespace LongDouble

/-- A sum as it is rounded: no number is nearer to the exact sum, and of two numbers that are as
near it is the one with the even significand. -/
structure IsSum (first second sum : LongDouble) : Prop where
  nearest : Rounding.Nearest {number | Finite number} value (first.value + second.value) sum
  even : ∀ other : LongDouble, other.Finite → other.value ≠ sum.value →
    |other.value - (first.value + second.value)| = |sum.value - (first.value + second.value)| →
      sum.significand % 2 = 0

variable {number first second sum : LongDouble} {quotient bits : Nat}

theorem pow_le_multiple (large : 2 ^ 63 ≤ quotient) :
    ((2 ^ (63 + bits) : Nat) : Rat) ≤ (quotient * 2 ^ bits : Nat) := by
  rw [Nat.cast_le, pow_add]
  exact Nat.mul_le_mul_right _ large

/-- Large numbers leave the gaps between the multiples of a power of two. -/
theorem magnitude_gap (large : 2 ^ 63 ≤ quotient) :
    number.magnitude ≤ (quotient * 2 ^ bits : Nat) ∨
      ((quotient + 1) * 2 ^ bits : Nat) ≤ number.magnitude := by
  refine or_iff_not_imp_left.mpr fun higher => ?_
  have above := not_le.mp higher
  obtain ⟨power, same⟩ := magnitude_of_large ((pow_le_multiple large).trans above.le)
  rw [same, Nat.cast_lt] at above
  rw [same, Nat.cast_le]
  exact Nat.mul_le_mul_right _ (Nat.lt_of_mul_lt_mul_right above)

/-- An odd multiple has an odd significand. -/
theorem even_of_magnitude (large : 2 ^ 63 ≤ quotient)
    (same : number.magnitude = (quotient * 2 ^ bits : Nat)) (even : number.significand % 2 = 0) :
    quotient % 2 = 0 := by
  obtain ⟨power, multiple⟩ := magnitude_of_large ((pow_le_multiple large).trans same.ge)
  rw [same, Nat.cast_inj] at multiple
  rw [Nat.eq_of_mul_eq_mul_right (Nat.pow_pos (by decide)) multiple, Nat.mul_mod, even,
    Nat.zero_mul, Nat.zero_mod]

theorem value_of_pos (positive : 0 < number.value) : number.value = number.magnitude := by
  rw [value] at positive ⊢
  by_cases sign : number.negative = true
  · rw [if_pos sign] at positive
    exact absurd (neg_pos.mp positive) (not_lt.mpr number.magnitude_nonneg)
  · exact if_neg sign

theorem value_of_neg (negative : number.value < 0) : number.value = -number.magnitude := by
  rw [value] at negative ⊢
  by_cases sign : number.negative = true
  · exact if_pos sign
  · rw [if_neg sign] at negative
    exact absurd negative (not_lt.mpr number.magnitude_nonneg)

/-- Two neighbours among the large positive numbers. -/
theorem gap_pos {low high : LongDouble} (large : 2 ^ 63 ≤ quotient) (lowFinite : low.Finite)
    (highFinite : high.Finite) (lowValue : low.value = (quotient * 2 ^ bits : Nat))
    (highValue : high.value = ((quotient + 1) * 2 ^ bits : Nat)) :
    Rounding.Gap {number | Finite number} value low.value high.value := by
  refine ⟨?_, ⟨low, lowFinite, rfl⟩, ⟨high, highFinite, rfl⟩, fun number _ => ?_⟩
  · rw [lowValue, highValue, Nat.cast_lt]
    exact Nat.mul_lt_mul_of_pos_right (Nat.lt_succ_self _) (Nat.pow_pos (by decide))
  · rw [lowValue, highValue]
    rcases le_or_gt number.value 0 with small | positive
    · exact Or.inl (small.trans (Nat.cast_nonneg _))
    · rw [value_of_pos positive]
      exact magnitude_gap large

/-- Two neighbours among the large negative numbers. -/
theorem gap_neg {low high : LongDouble} (large : 2 ^ 63 ≤ quotient) (lowFinite : low.Finite)
    (highFinite : high.Finite) (lowValue : low.value = -((quotient + 1) * 2 ^ bits : Nat))
    (highValue : high.value = -(quotient * 2 ^ bits : Nat)) :
    Rounding.Gap {number | Finite number} value low.value high.value := by
  refine ⟨?_, ⟨low, lowFinite, rfl⟩, ⟨high, highFinite, rfl⟩, fun number _ => ?_⟩
  · rw [lowValue, highValue, neg_lt_neg_iff, Nat.cast_lt]
    exact Nat.mul_lt_mul_of_pos_right (Nat.lt_succ_self _) (Nat.pow_pos (by decide))
  · rw [lowValue, highValue]
    rcases lt_or_ge number.value 0 with negative | small
    · rw [value_of_neg negative, neg_le_neg_iff, neg_le_neg_iff]
      exact (magnitude_gap large).symm
    · exact Or.inr ((neg_nonpos.mpr (Nat.cast_nonneg _)).trans small)

/-- From the middle of a gap the sum goes to the neighbour with the even significand. -/
theorem IsSum.even_of_middle {low high : LongDouble} (isSum : IsSum first second sum)
    (gap : Rounding.Gap {number | Finite number} value low.value high.value)
    (finite : sum.Finite) (lowFinite : low.Finite) (highFinite : high.Finite)
    (middle : first.value + second.value = (low.value + high.value) / 2) :
    sum.significand % 2 = 0 := by
  have order := gap.order
  have near : |low.value - (first.value + second.value)| =
      |high.value - (first.value + second.value)| := by
    rw [middle, abs_of_nonpos (by linarith), abs_of_nonneg (by linarith)]
    ring
  rcases isSum.nearest.eq_of_middle finite gap middle with same | same
  · exact isSum.even high highFinite (same ▸ order.ne') (by rw [same, near])
  · exact isSum.even low lowFinite (same ▸ order.ne) (by rw [same, near])

/-- An exact sum is a rounded one. -/
theorem isSum_of_eq (exact : sum.value = first.value + second.value) :
    IsSum first second sum := by
  refine ⟨fun other _ => ?_, fun other _ apart near => absurd ?_ apart⟩
  · rw [exact, sub_self, abs_zero]
    exact abs_nonneg _
  · rw [exact, sub_self, abs_zero, abs_eq_zero, sub_eq_zero] at near
    rw [near, exact]

/-- A number by its parts. -/
def ofParts (negative : Bool) (exponent significand : Nat) : LongDouble :=
  BitVec.ofNat 80 ((if negative then 2 ^ 79 else 0) + exponent * 2 ^ 64 + significand)

/-- The number before `10 ^ 20` is eight less, and its significand is odd: from the middle the
sum goes up. -/
theorem IsSum.lt_iff (isSum : IsSum first second sum) (finite : sum.Finite) :
    sum.value < 10 ^ 20 ↔ first.value + second.value < 10 ^ 20 - 4 := by
  have large : 2 ^ 63 ≤ 12499999999999999999 := by decide
  have lowFinite : (ofParts false 16449 12499999999999999999).Finite :=
    ⟨by decide +kernel, by decide +kernel⟩
  have highFinite : (ofParts false 16449 12500000000000000000).Finite :=
    ⟨by decide +kernel, by decide +kernel⟩
  have lowValue : (ofParts false 16449 12499999999999999999).value =
      (12499999999999999999 * 2 ^ 3 : Nat) := by decide +kernel
  have highValue : (ofParts false 16449 12500000000000000000).value =
      ((12499999999999999999 + 1) * 2 ^ 3 : Nat) := by decide +kernel
  have gap := gap_pos large lowFinite highFinite lowValue highValue
  have even := isSum.even_of_middle gap finite lowFinite highFinite
  have bound : (((12499999999999999999 + 1) * 2 ^ 3 : Nat) : Rat) = 10 ^ 20 := by norm_num
  have middle : (((12499999999999999999 * 2 ^ 3 : Nat) : Rat) + 10 ^ 20) / 2 = 10 ^ 20 - 4 := by
    norm_num
  rw [lowValue, highValue, bound] at gap
  rw [lowValue, highValue, bound] at even
  rw [isSum.nearest.lt_iff finite gap, middle]
  intro tie is_low
  have positive : 0 < sum.value := is_low ▸ (by norm_num)
  rw [value_of_pos positive] at is_low
  exact absurd (even_of_magnitude large is_low (even tie)) (by decide)

/-- The number after `-10 ^ 19` is one more, and its significand is odd: from the middle the sum
goes down. -/
theorem IsSum.gt_iff (isSum : IsSum first second sum) (finite : sum.Finite) :
    -10 ^ 19 < sum.value ↔ -10 ^ 19 + 1 / 2 < first.value + second.value := by
  have large : 2 ^ 63 ≤ 9999999999999999999 := by decide
  have lowFinite : (ofParts true 16446 10000000000000000000).Finite :=
    ⟨by decide +kernel, by decide +kernel⟩
  have highFinite : (ofParts true 16446 9999999999999999999).Finite :=
    ⟨by decide +kernel, by decide +kernel⟩
  have lowValue : (ofParts true 16446 10000000000000000000).value =
      -((9999999999999999999 + 1) * 2 ^ 0 : Nat) := by decide +kernel
  have highValue : (ofParts true 16446 9999999999999999999).value =
      -(9999999999999999999 * 2 ^ 0 : Nat) := by decide +kernel
  have gap := gap_neg large lowFinite highFinite lowValue highValue
  have even := isSum.even_of_middle gap finite lowFinite highFinite
  have bound : (-((9999999999999999999 + 1) * 2 ^ 0 : Nat) : Rat) = -10 ^ 19 := by norm_num
  have middle : (-10 ^ 19 + -((9999999999999999999 * 2 ^ 0 : Nat) : Rat)) / 2 =
      -10 ^ 19 + 1 / 2 := by norm_num
  rw [lowValue, highValue, bound] at gap
  rw [lowValue, highValue, bound] at even
  rw [isSum.nearest.gt_iff finite gap, middle]
  intro tie is_high
  have negative : sum.value < 0 := is_high ▸ (by norm_num)
  rw [value_of_neg negative, neg_inj] at is_high
  exact absurd (even_of_magnitude large is_high (even tie)) (by decide)

end LongDouble

/-! ### The numbers of a call -/

/-- The numbers a call accepts: its argument and, where the field exists, the stored one. -/
structure Accepted where
  stored : Option LongDouble
  given : LongDouble

/-- The number that is printed. -/
def Accepted.printed (env : Env) : Accepted → LongDouble
  | ⟨none, given⟩ => given
  | ⟨some stored, given⟩ => env.addLd stored given

/-- A new number lies between the bounds of the buffer, and a sum is not rounded to one. -/
def Accepted.Modest : Accepted → Prop
  | ⟨none, given⟩ => -10 ^ 19 < given.value ∧ given.value < 10 ^ 20
  | ⟨some stored, given⟩ =>
      -10 ^ 19 + 1 / 2 < stored.value + given.value ∧ stored.value + given.value < 10 ^ 20 - 4

variable {V : Type} [StrObj V] {env : Env} {key amount : Bss} {numbers : Accepted}

/-- The number in a string, if it is accepted. -/
def readLd (env : Env) (bss : Bss) : Option LongDouble :=
  match bss2ld env bss with
  | (number, ret) => if ret ≠ 0 then none else some number

/-- The numbers of a call, if all are accepted. -/
def acceptedNumbers (env : Env) (dict : Dict V) (key amount : Bss) : Option Accepted := do
  let given ← readLd env amount
  match dictLookUp dict key with
  | none => pure ⟨none, given⟩
  | some strObj =>
      let bss ← StrObj.string strObj
      let stored ← readLd env bss
      pure ⟨some stored, given⟩

/-- What the functions of the library do: numbers are printed with seventeen decimals, and a sum
that is a number is the exact one, rounded. -/
structure Env.Rounds (env : Env) : Prop where
  prints : ∀ number : LongDouble, number.Finite → env.sprintfLd number = fltText number
  adds : ∀ first second : LongDouble, (env.addLd first second).Finite →
    LongDouble.IsSum first second (env.addLd first second)

/-- The numbers of a call tell whether the text fits. -/
theorem fits_iff_modest (rounds : env.Rounds) (finite : (numbers.printed env).Finite) :
    (env.sprintfLd (numbers.printed env)).length + 1 ≤ bssLdbLen ↔ numbers.Modest := by
  rw [rounds.prints _ finite, fltText_fits_iff]
  obtain ⟨stored | stored, given⟩ := numbers
  · exact Iff.rfl
  · have isSum := rounds.adds stored given finite
    exact and_congr (isSum.gt_iff finite) (isSum.lt_iff finite)

theorem bss2ld_of_readLd {bss : Bss} {number : LongDouble} (read : readLd env bss = some number) :
    bss2ld env bss = (number, 0) := by
  unfold readLd at read
  split at read
  rename_i value ret answer
  split at read
  · cases read
  · rename_i zero
    rw [answer, not_not.mp zero, Option.some.inj read]

/-- A text that does not fit is written over the end of the buffer. -/
theorem incrbyfloatCommandOn_overflow [DictVal V] {dict : Dict V}
    (accepted : acceptedNumbers env dict key amount = some numbers)
    (finite : (numbers.printed env).Finite)
    (long : bssLdbLen < (env.sprintfLd (numbers.printed env)).length + 1) :
    incrbyfloatCommandOn env dict [key, amount] = fault .outOfBounds := by
  obtain ⟨given, read, accepted⟩ := Option.bind_eq_some_iff.mp accepted
  simp only [incrbyfloatCommandOn]
  rw [bss2ld_of_readLd read, if_neg (not_not.mpr rfl)]
  cases found : dictLookUp dict key with
  | none =>
    rw [found] at accepted
    obtain rfl := Option.some.inj accepted
    have tooLong : sprintfLdb env given = .error .outOfBounds := if_pos long
    simp only [tooLong]
    rfl
  | some strObj =>
    rw [found] at accepted
    obtain ⟨bss, isString, accepted⟩ := Option.bind_eq_some_iff.mp accepted
    obtain ⟨stored, readStored, accepted⟩ := Option.bind_eq_some_iff.mp accepted
    obtain rfl := Option.some.inj accepted
    have tooLong : sprintfLdb env (env.addLd stored given) = .error .outOfBounds := if_pos long
    have number : (env.addLd stored given).isNanOrInf = false :=
      LongDouble.isNanOrInf_eq_false finite
    have goesOn : ¬ ((0 : Int) ≠ 0 ∨ (env.addLd stored given).isNanOrInf = true) := by
      rw [number]
      simp
    simp only [isString, bss2ld_of_readLd readStored, tooLong]
    rw [if_neg goesOn]
    rfl

/-! ### The handler -/

/-- The hash that the command works on: a new one if there is none. -/
def fieldDict (dict : Dict Obj) (key : Bss) : Option (Dict Bss) :=
  match dictLookUp dict key with
  | none => some (dictCreate newDictPow)
  | some (.hash hash) => some hash
  | some _ => none

variable {dict : Dict Obj} {hash : Dict Bss} {field : Bss}

theorem hincrbyfloatCommand_fault {stop : Fault} (same : fieldDict dict key = some hash)
    (stops : incrbyfloatCommandOn env hash [field, amount] = fault stop) :
    hincrbyfloatCommand env dict [key, field, amount] = fault stop := by
  unfold fieldDict at same
  unfold hincrbyfloatCommand
  split at same
  · rename_i absent
    obtain rfl := Option.some.inj same
    simp only [absent, stops]
    rfl
  · rename_i found
    obtain rfl := Option.some.inj same
    simp only [found, stops]
    rfl
  · cases same

/-- Whatever `HINCRBYFLOAT` accepts is printed into a buffer that holds it only between two bounds;
nothing is checked, and beyond them the text is written over its end. -/
theorem hincrbyfloat_fits_iff (rounds : env.Rounds) (same : fieldDict dict key = some hash)
    (accepted : acceptedNumbers env hash field amount = some numbers)
    (finite : (numbers.printed env).Finite) :
    ((env.sprintfLd (numbers.printed env)).length + 1 ≤ bssLdbLen ↔ numbers.Modest) ∧
      (¬ numbers.Modest →
        hincrbyfloatCommand env dict [key, field, amount] = fault .outOfBounds) := by
  have fits := fits_iff_modest rounds finite
  refine ⟨fits, fun large => hincrbyfloatCommand_fault same ?_⟩
  exact incrbyfloatCommandOn_overflow accepted finite (not_le.mp (mt fits.mp large))

/-! ### Two calls -/

/-- The numbers `2`, `3`, `5` and `10 ^ 20`, and the infinity. -/
def two : LongDouble := .ofParts false 16384 (2 ^ 63)

def three : LongDouble := .ofParts false 16384 (3 * 2 ^ 62)

def five : LongDouble := .ofParts false 16385 (5 * 2 ^ 61)

def hundredQuintillion : LongDouble := .ofParts false 16449 12500000000000000000

def infinity : LongDouble := .ofParts false 0x7fff (2 ^ 63)

/-- Surroundings that read some of the numbers and add two of them. -/
def Env.sample : Env :=
  { Env.plain with
    strtold := fun str =>
      let digits := str.takeWhile isdigit
      (if digits = bytes "2" then two
        else if digits = bytes "3" then three
        else if digits = bytes "100000000000000000000" then hundredQuintillion
        else 0, digits.length, false)
    addLd := fun first second => if first = two ∧ second = three then five else infinity
    sprintfLd := fltText }

theorem sample_rounds : Env.sample.Rounds := by
  refine ⟨fun _ _ => rfl, fun first second finite => ?_⟩
  by_cases known : first = two ∧ second = three
  · have sum : Env.sample.addLd first second = five := if_pos known
    rw [sum, known.1, known.2]
    exact LongDouble.isSum_of_eq (by decide +kernel)
  · have sum : Env.sample.addLd first second = infinity := if_neg known
    rw [sum] at finite
    exact absurd (by decide +kernel) finite.exponent_ne

/-- The hash of `HSET h f 2`, and the key space that it leaves. -/
def twoHash : Dict Bss := dictAdd (dictCreate newDictPow) (textArg 2 "f") (textArg 3 "2")

def twoKey : Dict Obj := dictAdd (dictCreate initDictSize) (textArg 1 "h") (.hash twoHash)

theorem twoKey_hash : fieldDict twoKey (textArg 1 "h") = some twoHash := by
  have found : dictLookUp twoKey (textArg 1 "h") = some (.hash twoHash) :=
    lookUp_dictAdd_self (dictCreate_sized (by decide)) _ _
  rw [fieldDict, found]

theorem twoHash_accepted : acceptedNumbers Env.sample twoHash (textArg 2 "f") (textArg 4 "3") =
    some ⟨some two, three⟩ := by
  have found : dictLookUp twoHash (textArg 2 "f") = some (textArg 3 "2") :=
    lookUp_dictAdd_self (dictCreate_sized (by decide)) _ _
  have stored : readLd Env.sample (textArg 3 "2") = some two := by decide +kernel
  have given : readLd Env.sample (textArg 4 "3") = some three := by decide +kernel
  have isString : StrObj.string (textArg 3 "2") = some (textArg 3 "2") := rfl
  simp only [acceptedNumbers, given, found, isString, stored, Option.bind_eq_bind,
    Option.bind_some, Option.pure_def]

/-- `HINCRBYFLOAT h f 3` after `HSET h f 2`. -/
theorem hincrbyfloat_fits_two : Env.sample.Rounds ∧
    fieldDict twoKey (textArg 1 "h") = some twoHash ∧
    acceptedNumbers Env.sample twoHash (textArg 2 "f") (textArg 4 "3") = some ⟨some two, three⟩ ∧
    five.Finite ∧ Accepted.Modest ⟨some two, three⟩ ∧
    (Env.sample.sprintfLd five).length + 1 ≤ bssLdbLen := by
  have finite : five.Finite := ⟨by decide +kernel, by decide +kernel⟩
  have modest : Accepted.Modest ⟨some two, three⟩ := ⟨by decide +kernel, by decide +kernel⟩
  refine ⟨sample_rounds, twoKey_hash, twoHash_accepted, finite, modest, ?_⟩
  exact (hincrbyfloat_fits_iff sample_rounds twoKey_hash twoHash_accepted finite).1.mpr modest

/-- `HINCRBYFLOAT h f 100000000000000000000` on a new key writes forty bytes. -/
theorem hincrbyfloat_hundredQuintillion : Env.sample.Rounds ∧
    fieldDict (dictCreate initDictSize) (textArg 1 "h") = some (dictCreate newDictPow) ∧
    acceptedNumbers Env.sample (dictCreate newDictPow : Dict Bss) (textArg 2 "f")
      (textArg 3 "100000000000000000000") = some ⟨none, hundredQuintillion⟩ ∧
    hundredQuintillion.Finite ∧
    Env.sample.sprintfLd hundredQuintillion =
      bytes "100000000000000000000.00000000000000000" ∧
    bssLdbLen < (Env.sample.sprintfLd hundredQuintillion).length + 1 ∧
    hincrbyfloatCommand Env.sample (dictCreate initDictSize)
      [textArg 1 "h", textArg 2 "f", textArg 3 "100000000000000000000"] = fault .outOfBounds := by
  have finite : hundredQuintillion.Finite := ⟨by decide +kernel, by decide +kernel⟩
  have text : Env.sample.sprintfLd hundredQuintillion =
      bytes "100000000000000000000.00000000000000000" := by decide +kernel
  have long : bssLdbLen < (Env.sample.sprintfLd hundredQuintillion).length + 1 := by
    rw [text]
    decide
  have given : readLd Env.sample (textArg 3 "100000000000000000000") = some hundredQuintillion := by
    decide +kernel
  have accepted : acceptedNumbers Env.sample (dictCreate newDictPow : Dict Bss) (textArg 2 "f")
      (textArg 3 "100000000000000000000") = some ⟨none, hundredQuintillion⟩ := by
    rw [acceptedNumbers, given]
    rfl
  refine ⟨sample_rounds, rfl, accepted, finite, text, long, hincrbyfloatCommand_fault rfl ?_⟩
  exact incrbyfloatCommandOn_overflow accepted finite long

end PseudoRedis
