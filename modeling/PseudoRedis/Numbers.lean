/-
This file relates the two directions of the number conversion: `sprintf` prints a `long
long` with at most twenty characters, and `strtoll` reads what was printed back. A string
that holds a printed number is therefore the number it was made of.
-/

import PseudoRedis.Bss
import Mathlib.Tactic.IntervalCases

namespace PseudoRedis

/-! ### Decimal digits -/

/-- The digits `sprintf` prints. -/
def decimal (n : Nat) : Bytes := (Nat.toDigits 10 n).map fun char => UInt8.ofNat char.toNat

/-- The character of a digit. -/
def digit (n : Nat) : UInt8 := UInt8.ofNat (48 + n)

theorem digitChar_byte {n : Nat} (small : n < 10) :
    UInt8.ofNat (Nat.digitChar n).toNat = digit n := by
  interval_cases n <;> rfl

theorem digit_toNat {n : Nat} (small : n < 10) : (digit n).toNat = 48 + n := by
  interval_cases n <;> rfl

theorem isdigit_digit {n : Nat} (small : n < 10) : isdigit (digit n) = true := by
  interval_cases n <;> rfl

/-- A number below ten is one digit. -/
theorem decimal_of_lt {n : Nat} (small : n < 10) : decimal n = [digit n] := by
  rw [decimal, Nat.toDigits_of_lt_base small, List.map_singleton, digitChar_byte small]

/-- A larger number ends with the digit of its rest. -/
theorem decimal_of_le {n : Nat} (large : 10 ≤ n) :
    decimal n = decimal (n / 10) ++ [digit (n % 10)] := by
  rw [decimal, Nat.toDigits_of_base_le (by decide) large, List.map_append, List.map_singleton,
    digitChar_byte (Nat.mod_lt n (by decide))]
  rfl

/-- A property of the digits of numbers, from the last digit to the first. -/
theorem decimal_induction {motive : Nat → Prop} (one : ∀ n < 10, motive n)
    (more : ∀ n, 10 ≤ n → motive (n / 10) → motive n) (n : Nat) : motive n := by
  induction n using Nat.strong_induction_on with
  | _ n inductionHypothesis =>
    rcases Nat.lt_or_ge n 10 with small | large
    · exact one n small
    · exact more n large (inductionHypothesis _ (Nat.div_lt_self (by omega) (by decide)))

/-- Only digits are printed. -/
theorem isdigit_decimal (n : Nat) : ∀ char ∈ decimal n, isdigit char = true := by
  induction n using decimal_induction with
  | one n small =>
    intro char member
    rw [decimal_of_lt small, List.mem_singleton] at member
    rw [member, isdigit_digit small]
  | more n large inductionHypothesis =>
    intro char member
    rw [decimal_of_le large] at member
    rcases List.mem_append.mp member with before | last
    · exact inductionHypothesis char before
    · rw [List.mem_singleton.mp last, isdigit_digit (Nat.mod_lt n (by decide))]

/-- One more digit. -/
theorem magnitude_append (digits : Bytes) (char : UInt8) :
    magnitude (digits ++ [char]) = 10 * magnitude digits + (char.toNat - 48) := by
  rw [magnitude, List.foldl_append]
  rfl

/-- What is printed is read back. -/
theorem magnitude_decimal (n : Nat) : magnitude (decimal n) = n := by
  induction n using decimal_induction with
  | one n small =>
    rw [decimal_of_lt small, ← List.nil_append [digit n], magnitude_append, digit_toNat small]
    have nothing : magnitude [] = 0 := rfl
    omega
  | more n large inductionHypothesis =>
    rw [decimal_of_le large, magnitude_append, inductionHypothesis,
      digit_toNat (Nat.mod_lt n (by decide))]
    omega

theorem decimal_ne_nil (n : Nat) : decimal n ≠ [] := by
  intro nil
  exact Nat.toDigits_ne_nil (List.map_eq_nil_iff.mp nil)

/-- A number has no more digits than the power of ten above it. -/
theorem length_decimal_le {n bound : Nat} (positive : 0 < bound) (small : n < 10 ^ bound) :
    (decimal n).length ≤ bound := by
  rw [decimal, List.length_map]
  exact (Nat.length_toDigits_le_iff (by decide) positive).mpr small

/-! ### Printing -/

theorem sprintfLld_of_neg {value : Int} (negative : value < 0) :
    sprintfLld value = 45 :: decimal value.natAbs := if_pos negative

theorem sprintfLld_of_nonneg {value : Int} (nonnegative : 0 ≤ value) :
    sprintfLld value = decimal value.natAbs := if_neg (Int.not_lt.mpr nonnegative)

/-- The range of a `long long`. -/
def IsInt64 (value : Int) : Prop := llongMin ≤ value ∧ value ≤ llongMax

/-- A sum is cut to the range of its type. -/
theorem isInt64_toInt64 (value : Int) : IsInt64 (toInt64 value) := by
  have least : -(2 ^ 64 / 2 : Int) ≤ toInt64 value := Int.le_bmod (by decide)
  have most : toInt64 value < (2 ^ 64 + 1) / 2 := Int.bmod_lt (by decide)
  rw [IsInt64, llongMin, llongMax]
  omega

/-- A number in range is not cut. -/
theorem toInt64_of_isInt64 {value : Int} (inRange : IsInt64 value) : toInt64 value = value := by
  rw [IsInt64, llongMin, llongMax] at inRange
  have least : -(2 ^ 64 / 2 : Int) ≤ value := by omega
  have most : value < (2 ^ 64 + 1) / 2 := by omega
  exact Int.bmod_eq_of_le least most

/-- The range of an `int`. -/
def IsInt32 (value : Int) : Prop := -2 ^ 31 ≤ value ∧ value < 2 ^ 31

theorem toInt32_range (value : Int) : IsInt32 (toInt32 value) := by
  have least : -(2 ^ 32 / 2 : Int) ≤ toInt32 value := Int.le_bmod (by decide)
  have most : toInt32 value < (2 ^ 32 + 1) / 2 := Int.bmod_lt (by decide)
  rw [IsInt32]
  omega

/-- `%d` shows the whole number exactly if it is in the range of an `int`. -/
theorem toInt32_eq_iff (value : Int) : toInt32 value = value ↔ IsInt32 value := by
  constructor
  · intro same
    rw [← same]
    exact toInt32_range value
  · intro inRange
    rw [IsInt32] at inRange
    exact Int.bmod_eq_of_le (by omega) (by omega)

theorem isInt64_toInt32 (value : Int) : IsInt64 (toInt32 value) := by
  have half := toInt32_range value
  rw [IsInt32] at half
  rw [IsInt64, llongMin, llongMax]
  omega

/-- A printed number and the byte that ends it fit the local buffer of `bss_add_sub`. -/
theorem length_sprintfLld_le {value : Int} (inRange : IsInt64 value) :
    (sprintfLld value).length ≤ 20 := by
  have digits : (decimal value.natAbs).length ≤ 19 := by
    refine length_decimal_le (by decide) ?_
    have bounds := inRange
    rw [IsInt64, llongMin, llongMax] at bounds
    omega
  rcases lt_or_ge value 0 with negative | nonnegative
  · rw [sprintfLld_of_neg negative, List.length_cons]
    exact Nat.succ_le_succ digits
  · rw [sprintfLld_of_nonneg nonnegative]
    exact Nat.le_succ_of_le digits

/-! ### Reading what was printed -/

theorem isInt64_clampLong (value : Int) (consumed : Nat) :
    IsInt64 (clampLong value consumed).1 := by
  rw [clampLong]
  split
  · exact ⟨(by decide : llongMin ≤ llongMax), Int.le_refl _⟩
  · rename_i small
    split
    · exact ⟨Int.le_refl _, (by decide : llongMin ≤ llongMax)⟩
    · rename_i large
      exact ⟨Int.not_lt.mp large, Int.not_lt.mp small⟩

/-- Whatever the digits are, `strtoll` returns a `long long`. -/
theorem isInt64_strtoll (area : Bytes) : IsInt64 (strtoll area).1 := by
  have read (blank : Nat) (negative signed : Bool) (digits : Bytes) :
      IsInt64 (strtollDigits blank negative signed digits).1 := by
    rw [strtollDigits]
    split
    · exact ⟨by decide, by decide⟩
    · exact isInt64_clampLong _ _
  exact read _ _ _ _

/-- The number of a string is a `long long`. -/
theorem isInt64_bss2int (bss : Bss) : IsInt64 (bss2int bss).1 := by
  have inRange := isInt64_strtoll bss.str
  rw [bss2int]
  split
  · exact ⟨by decide, by decide⟩
  · split
    rename_i value consumed erange number
    rw [number] at inRange
    split
    · exact inRange
    · exact inRange

theorem takeWhile_isdigit_decimal (n : Nat) (rest : Bytes) :
    (decimal n ++ 0 :: rest).takeWhile isdigit = decimal n := by
  rw [List.takeWhile_append_of_pos (isdigit_decimal n), List.takeWhile_cons_of_neg (by decide),
    List.append_nil]

theorem isdigit_cases {char : UInt8} (char_isdigit : isdigit char = true) :
    isspace char = false ∧ char ≠ 45 ∧ char ≠ 43 := by
  rw [isdigit, Bool.and_eq_true, decide_eq_true_eq, decide_eq_true_eq, UInt8.le_iff_toNat_le,
    UInt8.le_iff_toNat_le] at char_isdigit
  have first : (48 : UInt8).toNat = 48 := rfl
  have last : (57 : UInt8).toNat = 57 := rfl
  refine ⟨?_, ?_, ?_⟩
  · rw [isspace, Bool.or_eq_false_iff, beq_eq_false_iff_ne, Bool.and_eq_false_iff]
    refine ⟨?_, Or.inr (decide_eq_false fun below => ?_)⟩
    · rintro rfl
      exact absurd char_isdigit.1 (by decide)
    · have most := UInt8.le_iff_toNat_le.mp below
      have thirteen : (13 : UInt8).toNat = 13 := rfl
      omega
  · rintro rfl
    exact absurd char_isdigit.1 (by decide)
  · rintro rfl
    exact absurd char_isdigit.1 (by decide)

/-- A printed number is read back up to the zero behind it. -/
theorem strtoll_printed {value : Int} (inRange : IsInt64 value) (rest : Bytes) :
    strtoll (sprintfLld value ++ 0 :: rest) = (value, (sprintfLld value).length, false) := by
  have clamped (consumed : Nat) : clampLong value consumed = (value, consumed, false) := by
    rw [clampLong, if_neg (Int.not_lt.mpr inRange.2), if_neg (Int.not_lt.mpr inRange.1)]
  have read := takeWhile_isdigit_decimal value.natAbs rest
  have nonempty := decimal_ne_nil value.natAbs
  have number := magnitude_decimal value.natAbs
  rcases lt_or_ge value 0 with negative | nonnegative
  · have same : -(value.natAbs : Int) = value := by omega
    rw [sprintfLld_of_neg negative]
    show strtollDigits 0 true true ((decimal value.natAbs ++ 0 :: rest).takeWhile isdigit) = _
    rw [read, strtollDigits, if_neg nonempty, if_pos rfl, if_pos rfl, number, same, clamped,
      List.length_cons, Nat.zero_add, Nat.add_comm]
  · have same : (value.natAbs : Int) = value := Int.natAbs_of_nonneg nonnegative
    rw [sprintfLld_of_nonneg nonnegative]
    obtain ⟨first, others, split⟩ := List.exists_cons_of_ne_nil nonempty
    obtain ⟨notSpace, notMinus, notPlus⟩ :=
      isdigit_cases (isdigit_decimal value.natAbs first (split ▸ List.mem_cons_self))
    have noBlank : (decimal value.natAbs ++ 0 :: rest).takeWhile isspace = [] := by
      rw [split, List.cons_append, List.takeWhile_cons_of_neg (Bool.eq_false_iff.mp notSpace)]
    have unchanged : (decimal value.natAbs ++ 0 :: rest).dropWhile isspace =
        decimal value.natAbs ++ 0 :: rest := by
      rw [split, List.cons_append, List.dropWhile_cons_of_neg (Bool.eq_false_iff.mp notSpace)]
    have head : (decimal value.natAbs ++ 0 :: rest).head? = some first := by
      rw [split]
      rfl
    have unsigned : ∀ sign : UInt8, first ≠ sign → (some first == some sign) = false := by
      intro sign different
      exact beq_eq_false_iff_ne.mpr fun equal => different (Option.some.inj equal)
    rw [strtoll]
    simp only [noBlank, unchanged, head, unsigned 45 notMinus, unsigned 43 notPlus, Bool.or_false,
      Bool.false_eq_true, if_false, read, strtollDigits, if_neg nonempty, number, same, clamped,
      List.length_nil, Nat.zero_add]

/-- A string that holds a printed number is that number. -/
theorem bss2int_printed {value : Int} (inRange : IsInt64 value) {bss : Bss} {rest : Bytes}
    (str : bss.str = sprintfLld value ++ 0 :: rest) (len : bss.len = (sprintfLld value).length) :
    bss2int bss = (value, 0) := by
  have read := strtoll_printed inRange rest
  have positive : ¬ bss.len = 0 := by
    rw [len]
    intro zero
    have nil := List.length_eq_zero_iff.mp zero
    rw [sprintfLld] at nil
    split at nil
    · cases nil
    · exact decimal_ne_nil _ nil
  rw [bss2int, if_neg positive, str, read, len]
  simp only [Bool.false_or, ne_eq, not_true_eq_false, decide_false, Bool.false_eq_true, if_false]

/-- Every number is what some argument holds. -/
theorem bss2int_bssCreate {value : Int} (inRange : IsInt64 value) (env : Env) (id : Nat) :
    bss2int (bssCreate env id (sprintfLld value)) = (value, 0) :=
  bss2int_printed inRange rfl rfl

end PseudoRedis
