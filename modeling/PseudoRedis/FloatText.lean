/-
This file is about the numbers of type `long double` and their texts. The bits of an x87
number are a sign, fifteen bits of exponent and a significand of sixty-four bits, so its
value is a whole multiple of a power of two; from `2 ^ 63` on it is an integer, and from
`2 ^ 66` on a multiple of eight.

`BSS_FLT_FMT` prints the value rounded to seventeen decimals: a minus where the sign bit is
set, the digits of the integer part, a point and seventeen digits. Only the integer part
makes a text long, and rounding does not change it where the digits become many.
-/

import PseudoRedis.CutZero
import PseudoRedis.Lib.Rounding

namespace PseudoRedis

/-! ### The numbers -/

/-- The power of two that the values are multiples of, negated. -/
@[irreducible]
def unitBits : Nat := 16446

namespace LongDouble

def negative (number : LongDouble) : Bool := number.msb

def exponent (number : LongDouble) : Nat := ((number >>> 64) &&& 0x7fff).toNat

def significand (number : LongDouble) : Nat := (number.setWidth 64).toNat

/-- A number, neither an infinity nor a NaN: the leading bit of the significand is set, unless the
exponent is the least. -/
structure Finite (number : LongDouble) : Prop where
  exponent_ne : number.exponent ≠ 0x7fff
  leading : number.exponent = 0 ∨ 2 ^ 63 ≤ number.significand

/-- The significand is multiplied by two to this power, less `unitBits`. The two least exponents
stand for the same one. -/
def shift (number : LongDouble) : Nat := max number.exponent 1

def magnitude (number : LongDouble) : Rat :=
  (number.significand * 2 ^ number.shift : Nat) / (2 ^ unitBits : Nat)

def value (number : LongDouble) : Rat :=
  if number.negative then -number.magnitude else number.magnitude

theorem significand_lt (number : LongDouble) : number.significand < 2 ^ 64 :=
  (number.setWidth 64).isLt

theorem units_pos : 0 < 2 ^ unitBits := Nat.pow_pos (by decide)

theorem magnitude_nonneg (number : LongDouble) : 0 ≤ number.magnitude :=
  div_nonneg (Nat.cast_nonneg _) (Nat.cast_nonneg _)

theorem isNanOrInf_eq_false {number : LongDouble} (finite : number.Finite) :
    number.isNanOrInf = false := by
  rw [isNanOrInf, beq_eq_false_iff_ne]
  intro same
  exact finite.exponent_ne (congrArg BitVec.toNat same)

/-- A number with a large exponent is an integer, and a multiple of a power of two. -/
theorem magnitude_of_le {number : LongDouble} {bits : Nat}
    (large : unitBits + bits ≤ number.shift) :
    number.magnitude =
      (number.significand * 2 ^ (number.shift - unitBits - bits) * 2 ^ bits : Nat) := by
  have split : number.shift = number.shift - unitBits - bits + bits + unitBits := by omega
  have nonzero : ((2 ^ unitBits : Nat) : Rat) ≠ 0 := Nat.cast_ne_zero.mpr units_pos.ne'
  rw [magnitude, div_eq_iff nonzero, ← Nat.cast_mul]
  refine congrArg Nat.cast ?_
  conv_lhs => rw [split]
  rw [pow_add, pow_add, Nat.mul_assoc, Nat.mul_assoc, Nat.mul_assoc]

/-- A number with a small exponent is small. -/
theorem units_lt_of_lt {number : LongDouble} {bits : Nat}
    (small : number.shift < unitBits + bits) :
    number.significand * 2 ^ number.shift < 2 ^ (63 + bits) * 2 ^ unitBits := by
  have power : 2 ^ number.shift * 2 ≤ 2 ^ (unitBits + bits) := by
    rw [← pow_succ]
    exact Nat.pow_le_pow_right (by decide) small
  have bound := number.significand_lt
  have twice : number.significand * 2 ^ number.shift * 2 < 2 ^ (63 + bits) * 2 ^ unitBits * 2 :=
    calc number.significand * 2 ^ number.shift * 2
        = number.significand * (2 ^ number.shift * 2) := Nat.mul_assoc _ _ _
      _ ≤ number.significand * 2 ^ (unitBits + bits) := Nat.mul_le_mul_left _ power
      _ < 2 ^ 64 * 2 ^ (unitBits + bits) :=
        Nat.mul_lt_mul_of_pos_right bound (Nat.pow_pos (by decide))
      _ = 2 ^ (63 + bits) * 2 ^ unitBits * 2 := by
        rw [← pow_add, ← pow_add, ← pow_succ]
        exact congrArg (2 ^ ·) (by omega)
  omega

/-- From a power of two on, the numbers are multiples of another one. -/
theorem magnitude_of_large {number : LongDouble} {bits : Nat}
    (large : (2 ^ (63 + bits) : Nat) ≤ number.magnitude) :
    ∃ power, number.magnitude = (number.significand * 2 ^ power * 2 ^ bits : Nat) := by
  rcases Nat.lt_or_ge number.shift (unitBits + bits) with small | enough
  · have less := units_lt_of_lt small
    have positive : (0 : Rat) < (2 ^ unitBits : Nat) := Nat.cast_pos.mpr units_pos
    rw [magnitude, le_div_iff₀ positive, ← Nat.cast_mul, Nat.cast_le] at large
    omega
  · exact ⟨_, magnitude_of_le enough⟩

end LongDouble

/-! ### Their texts -/

/-- The magnitude in units of the seventeenth decimal, rounded to the nearest. -/
def LongDouble.decimals (number : LongDouble) : Nat :=
  Rounding.halfEven (number.significand * 2 ^ number.shift * 10 ^ 17) (2 ^ unitBits)

/-- The seventeen digits behind the point. -/
def padded (fraction : Nat) : Bytes :=
  List.replicate (17 - (decimal fraction).length) 48 ++ decimal fraction

/-- What `sprintf` with `BSS_FLT_FMT` prints of a number. -/
def fltText (number : LongDouble) : Bytes :=
  (if number.negative then [45] else []) ++ decimal (number.decimals / 10 ^ 17) ++
    46 :: padded (number.decimals % 10 ^ 17)

theorem length_decimal_le_iff {n bound : Nat} (positive : 0 < bound) :
    (decimal n).length ≤ bound ↔ n < 10 ^ bound := by
  rw [decimal, List.length_map]
  exact Nat.length_toDigits_le_iff (by decide) positive

theorem length_padded {fraction : Nat} (small : fraction < 10 ^ 17) :
    (padded fraction).length = 17 := by
  have digits := length_decimal_le (by decide) small
  rw [padded, List.length_append, List.length_replicate]
  omega

/-- A printed number has the form that `bss_cut_zero` relies on. -/
theorem fltText_form (number : LongDouble) :
    FloatForm (if number.negative then [45] else []) (decimal (number.decimals / 10 ^ 17))
      (padded (number.decimals % 10 ^ 17)) := by
  have rest := Nat.mod_lt number.decimals (Nat.pow_pos (by decide) : 0 < 10 ^ 17)
  refine ⟨?_, decimal_ne_nil _, isdigit_decimal _, length_padded rest, fun char member => ?_⟩
  · split
    · exact Or.inr rfl
    · exact Or.inl rfl
  · rcases List.mem_append.mp member with zero | inDigits
    · rw [List.eq_of_mem_replicate zero]
      rfl
    · exact isdigit_decimal _ char inDigits

theorem length_fltText (number : LongDouble) :
    (fltText number).length =
      (if number.negative then 1 else 0) + (decimal (number.decimals / 10 ^ 17)).length + 18 := by
  have precision := (fltText_form number).precision
  rw [fltText, List.length_append, List.length_append, List.length_cons, precision]
  split
  · rfl
  · rfl

/-- Rounding does not carry the integer part across a bound above the numbers with a fraction. -/
theorem whole_lt_iff (number : LongDouble) {bound : Nat} (large : 2 ^ 63 < bound) :
    number.decimals / 10 ^ 17 < bound ↔ number.magnitude < bound := by
  rcases Nat.lt_or_ge number.shift unitBits with small | enough
  · -- below `2 ^ 63` both are below the bound
    have less : number.significand * 2 ^ number.shift < 2 ^ 63 * 2 ^ unitBits :=
      @LongDouble.units_lt_of_lt number 0 small
    have rounded : number.decimals ≤ 2 ^ 63 * 10 ^ 17 := by
      refine Rounding.halfEven_le LongDouble.units_pos ?_
      rw [Nat.mul_right_comm (2 ^ 63)]
      exact Nat.mul_le_mul_right _ less.le
    have whole : number.decimals / 10 ^ 17 ≤ 2 ^ 63 :=
      Nat.div_le_of_le_mul (by rwa [Nat.mul_comm])
    have positive : (0 : Rat) < (2 ^ unitBits : Nat) := Nat.cast_pos.mpr LongDouble.units_pos
    refine iff_of_true (Nat.lt_of_le_of_lt whole large) ?_
    rw [LongDouble.magnitude, div_lt_iff₀ positive, ← Nat.cast_mul, Nat.cast_lt]
    exact less.trans_le (Nat.mul_le_mul_right _ large.le)
  · -- an integer is printed as it is
    have same : number.magnitude =
        (number.significand * 2 ^ (number.shift - unitBits - 0) * 2 ^ 0 : Nat) :=
      @LongDouble.magnitude_of_le number 0 enough
    rw [Nat.sub_zero, pow_zero, Nat.mul_one] at same
    have split : number.significand * 2 ^ number.shift * 10 ^ 17 =
        number.significand * 2 ^ (number.shift - unitBits) * 10 ^ 17 * 2 ^ unitBits := by
      have power : 2 ^ number.shift = 2 ^ (number.shift - unitBits) * 2 ^ unitBits := by
        rw [← pow_add, Nat.sub_add_cancel enough]
      rw [power]
      ring
    rw [LongDouble.decimals, split, Rounding.halfEven_mul LongDouble.units_pos,
      Nat.mul_div_cancel _ (Nat.pow_pos (by decide)), same, Nat.cast_lt]

/-- The text and the byte that ends it fit in `BSS_LDB_LEN` bytes. -/
theorem fltText_fits_iff (number : LongDouble) :
    (fltText number).length + 1 ≤ bssLdbLen ↔
      -10 ^ 19 < number.value ∧ number.value < 10 ^ 20 := by
  have nonneg := number.magnitude_nonneg
  rw [length_fltText, bssLdbLen, bssMinLen, LongDouble.value]
  cases number.negative with
  | true =>
    have digits : 1 + (decimal (number.decimals / 10 ^ 17)).length + 18 + 1 ≤ 22 + 17 ↔
        (decimal (number.decimals / 10 ^ 17)).length ≤ 19 := by omega
    rw [if_pos rfl, if_pos rfl, digits, length_decimal_le_iff (by decide),
      whole_lt_iff number (by norm_num), neg_lt_neg_iff, Nat.cast_pow, Nat.cast_ofNat]
    exact (and_iff_left (lt_of_le_of_lt (neg_nonpos.mpr nonneg) (by norm_num))).symm
  | false =>
    have digits : 0 + (decimal (number.decimals / 10 ^ 17)).length + 18 + 1 ≤ 22 + 17 ↔
        (decimal (number.decimals / 10 ^ 17)).length ≤ 20 := by omega
    rw [if_neg Bool.false_ne_true, if_neg Bool.false_ne_true, digits,
      length_decimal_le_iff (by decide), whole_lt_iff number (by norm_num), Nat.cast_pow,
      Nat.cast_ofNat]
    exact (and_iff_right (lt_of_lt_of_le (by norm_num) nonneg)).symm

theorem magnitude_padded (fraction : Nat) : magnitude (padded fraction) = fraction := by
  rw [padded]
  induction 17 - (decimal fraction).length with
  | zero => exact magnitude_decimal fraction
  | succ count inductionHypothesis =>
    rw [List.replicate_succ, List.cons_append]
    exact inductionHypothesis

/-- The units are the magnitude up to half of one. -/
theorem decimals_error (number : LongDouble) :
    |(number.decimals : Rat) / 10 ^ 17 - number.magnitude| ≤ 1 / 2 / 10 ^ 17 := by
  have scale : (0 : Rat) < 10 ^ 17 := by positivity
  have error := @Rounding.halfEven_error Rat _ _ _
    (number.significand * 2 ^ number.shift * 10 ^ 17) _ LongDouble.units_pos
  rw [← LongDouble.decimals, Nat.cast_mul, Nat.cast_pow, Nat.cast_ofNat, mul_div_right_comm,
    ← LongDouble.magnitude] at error
  have split : (number.decimals : Rat) / 10 ^ 17 - number.magnitude =
      (number.decimals - number.magnitude * 10 ^ 17) / 10 ^ 17 := by
    rw [sub_div, mul_div_cancel_right₀ _ scale.ne']
  rw [split, abs_div, abs_of_pos scale]
  exact div_le_div_of_nonneg_right error scale.le

/-- The digits and the point denote the units. -/
theorem fractionValue_units (units : Nat) :
    fractionValue (decimal (units / 10 ^ 17) ++ 46 :: padded (units % 10 ^ 17)) =
      units / 10 ^ 17 := by
  have scale : (10 ^ 17 : Rat) ≠ 0 := by positivity
  have rest := Nat.mod_lt units (Nat.pow_pos (by decide) : 0 < 10 ^ 17)
  have whole : (10 ^ 17 * (units / 10 ^ 17) + units % 10 ^ 17 : Nat) = units :=
    Nat.div_add_mod units _
  rw [fractionValue_point (isdigit_decimal _), length_padded rest, magnitude_decimal,
    magnitude_padded, Int.cast_natCast, Int.cast_natCast, eq_div_iff scale, add_mul,
    div_mul_cancel₀ _ scale]
  conv_rhs => rw [← whole, Nat.cast_add, Nat.cast_mul, Nat.cast_pow, Nat.cast_ofNat, mul_comm]

/-- The text denotes the number rounded to seventeen decimals. -/
theorem textValue_fltText (number : LongDouble) :
    |textValue (fltText number) - number.value| ≤ 1 / 2 / 10 ^ 17 := by
  have form := fltText_form number
  have close := decimals_error number
  rw [fltText, textValue_sign form.sign form.digit form.wholeDigits, fractionValue_units,
    LongDouble.value]
  cases number.negative with
  | true =>
    rw [if_pos rfl, if_pos rfl, if_neg (List.cons_ne_nil _ _), neg_sub_neg, abs_sub_comm]
    exact close
  | false =>
    rw [if_neg Bool.false_ne_true, if_neg Bool.false_ne_true, if_pos rfl]
    exact close

end PseudoRedis
