/-
This file proves what `bss_cut_zero` makes of a decimal fraction. The loop takes zeros off
the end without a look at the point, and what stops it in time is that the point itself is
no zero: the digits before it are never reached. What is left then ends in the last digit
of the fraction that counts, or in the point, which goes as well.

A text is read as the rational number it denotes: the sign, the digits before the point and
the digits behind it over a power of ten. Zeros at the end of the fraction do not change it.
-/

import PseudoRedis.Capacity
import PseudoRedis.Numbers
import Mathlib.Data.List.Induction
import Mathlib.Data.List.TakeWhile
import Mathlib.Tactic.FieldSimp
import Mathlib.Tactic.Ring

namespace PseudoRedis

/-! ### The loop -/

/-- The loop stops at the last byte that is no zero. -/
theorem cutZeros_eq {str : Bytes} {stop : Nat} (count : Nat) (other : str[stop]? ≠ some 48)
    (zeros : ∀ index, stop < index → index ≤ stop + count → str[index]? = some 48) :
    cutZeros str (stop + count) = stop := by
  induction count with
  | zero =>
    cases stop with
    | zero => rfl
    | succ stop => exact if_neg other
  | succ count inductionHypothesis =>
    have last := zeros (stop + count + 1) (by omega) (Nat.le_refl _)
    rw [← Nat.add_assoc, cutZeros, if_pos last]
    exact inductionHypothesis fun index after inside =>
      zeros index after (Nat.le_succ_of_le inside)

theorem Bss.Ended.content_length {bss : Bss} (ended : bss.Ended) :
    bss.content.length = bss.len := by
  have area := ended.area
  rw [Bss.size] at area
  rw [Bss.content, List.length_take]
  omega

theorem Bss.content_getElem? {bss : Bss} {index : Nat} (inside : index < bss.len) :
    bss.str[index]? = bss.content[index]? := (List.getElem?_take_of_lt inside).symm

/-- Writing the byte that is there changes nothing. -/
theorem store_same {area : Bytes} {offset : Nat} {byte : UInt8}
    (there : area[offset]? = some byte) :
    store area offset [byte] = .ok area := by
  obtain ⟨inside, same⟩ := List.getElem?_eq_some_iff.mp there
  rw [store, if_pos (by rw [List.length_singleton]; exact inside)]
  refine congrArg Except.ok ?_
  rw [← same, List.length_singleton, List.append_assoc, List.singleton_append,
    ← List.drop_eq_getElem_cons inside, List.take_append_drop]

variable {bss : Bss} {front : Bytes} {char : UInt8}

/-- Where the loop stops in a text that ends in zeros. -/
theorem cutZeros_content {count : Nat} (ended : bss.Ended)
    (content : bss.content = front ++ char :: List.replicate count 48) (other : char ≠ 48) :
    cutZeros bss.str (bss.len - 1) = front.length ∧ bss.str[front.length]? = some char ∧
      bss.len = front.length + 1 + count := by
  have length := ended.content_length
  rw [content, List.length_append, List.length_cons, List.length_replicate] at length
  have here : bss.str[front.length]? = some char := by
    rw [Bss.content_getElem? (by omega), content, List.getElem?_append_right (Nat.le_refl _),
      Nat.sub_self]
    rfl
  refine ⟨?_, here, by omega⟩
  have last : bss.len - 1 = front.length + count := by omega
  rw [last]
  refine cutZeros_eq count ?_ fun index after inside => ?_
  · rw [here]
    exact fun same => other (Option.some.inj same)
  · rw [Bss.content_getElem? (by omega), content, List.getElem?_append_right (by omega),
      List.getElem?_cons]
    rw [if_neg (by omega), List.getElem?_replicate, if_pos (by omega)]

/-- A text that is not empty is cut inside its area. -/
theorem bssCutZero_ended (ended : bss.Ended) (filled : bss.len ≠ 0) :
    ∃ result, bssCutZero bss = .ok result ∧ result.Ended ∧ result.size = bss.size ∧
      result.len = cutLen bss ∧ result.content = bss.content.take (cutLen bss) := by
  have shorter := cutLen_le filled
  have area := ended.area
  have room : bss.len ≤ bss.size := Nat.le_add_right _ _
  have stored : store bss.str (cutLen bss) [0] =
      .ok (bss.str.take (cutLen bss) ++ [0] ++ bss.str.drop (cutLen bss + 1)) :=
    if_pos (by rw [List.length_singleton]; omega)
  have run : bssCutZero bss = .ok { bss with
      len := cutLen bss
      free := bss.size - cutLen bss
      str := bss.str.take (cutLen bss) ++ [0] ++ bss.str.drop (cutLen bss + 1) } := by
    rw [bssCutZero, if_neg filled, stored]
  refine ⟨_, run, (bssCutZero_grown ended filled run).toEnded, ?_, rfl, ?_⟩
  · show cutLen bss + (bss.size - cutLen bss) = bss.size
    omega
  · have start : (bss.str.take (cutLen bss)).length = cutLen bss := by
      rw [List.length_take]
      omega
    simp only [Bss.content]
    rw [List.take_take, Nat.min_eq_left shorter, List.append_assoc, List.take_append_of_le_length
      start.ge, List.take_of_length_le start.le]

/-- Taking the zeros off a text, and the point if it is what is left at the end. -/
theorem bssCutZero_spec {count : Nat} (ended : bss.Ended)
    (content : bss.content = front ++ char :: List.replicate count 48) (other : char ≠ 48) :
    ∃ result, bssCutZero bss = .ok result ∧ result.Ended ∧ result.size = bss.size ∧
      result.content = if char = 46 then front else front ++ [char] := by
  obtain ⟨stops, here, length⟩ := cutZeros_content ended content other
  obtain ⟨result, run, ended', size, -, cut⟩ := bssCutZero_ended ended (by omega)
  refine ⟨result, run, ended', size, ?_⟩
  rw [cut, content, cutLen, stops, here]
  by_cases point : char = 46
  · rw [if_pos point, if_pos (by rw [point]), List.take_left]
  · have split : front ++ char :: List.replicate count 48 =
        front ++ [char] ++ List.replicate count 48 := by
      rw [List.append_assoc, List.singleton_append]
    have whole : front.length + 1 = (front ++ [char]).length := by
      rw [List.length_append, List.length_singleton]
    rw [if_neg point, if_neg (fun same => point (Option.some.inj same)), split, whole,
      List.take_left]

/-- A text that ends in neither a zero nor a point stays as it is. -/
theorem bssCutZero_same (ended : bss.Ended) (content : bss.content = front ++ [char])
    (other : char ≠ 48) (noPoint : char ≠ 46) : bssCutZero bss = .ok bss := by
  obtain ⟨stops, here, length⟩ := @cutZeros_content bss front char 0 ended content other
  have cut : cutLen bss = bss.len := by
    rw [cutLen, stops, here, if_neg (fun same => noPoint (Option.some.inj same)), length]
  rw [bssCutZero, if_neg (by omega), cut, store_same ended.ended]
  simp only [Bss.size, Nat.add_sub_cancel_left]

/-! ### Fractions -/

/-- The number digits denote, with perhaps a point among them. -/
def fractionValue (digits : Bytes) : Rat :=
  let whole := digits.takeWhile fun char => char != 46
  let fraction := (digits.dropWhile fun char => char != 46).tail
  magnitude whole + magnitude fraction / 10 ^ fraction.length

/-- The number a text denotes. -/
def textValue (text : Bytes) : Rat :=
  if text.head? = some 45 then -fractionValue text.tail else fractionValue text

/-- What `BSS_FLT_FMT` prints: a minus or nothing, digits, a point, and seventeen digits. -/
structure FloatForm (minus whole fraction : Bytes) : Prop where
  sign : minus = [] ∨ minus = [45]
  digit : whole ≠ []
  wholeDigits : ∀ char ∈ whole, isdigit char = true
  precision : fraction.length = 17
  digits : ∀ char ∈ fraction, isdigit char = true

theorem isdigit_ne {char : UInt8} (number : isdigit char = true) : char ≠ 46 ∧ char ≠ 45 := by
  refine ⟨?_, ?_⟩
  · rintro rfl
    cases number
  · rintro rfl
    cases number

theorem magnitude_zeros (digits : Bytes) (count : Nat) :
    magnitude (digits ++ List.replicate count 48) = magnitude digits * 10 ^ count := by
  induction count with
  | zero => rw [List.replicate_zero, List.append_nil, pow_zero, mul_one]
  | succ count inductionHypothesis =>
    rw [List.replicate_succ', ← List.append_assoc, magnitude_append, inductionHypothesis, pow_succ]
    show 10 * (magnitude digits * 10 ^ count) + (48 - 48) = magnitude digits * (10 ^ count * 10)
    ring

section Value

variable {minus whole fraction : Bytes}

theorem pointless {digits : Bytes} (number : ∀ char ∈ digits, isdigit char = true) :
    ∀ char ∈ digits, (char != 46) = true := fun char member =>
  bne_iff_ne.mpr (isdigit_ne (number char member)).1

theorem fractionValue_point (number : ∀ char ∈ whole, isdigit char = true) (fraction : Bytes) :
    fractionValue (whole ++ 46 :: fraction) =
      magnitude whole + magnitude fraction / 10 ^ fraction.length := by
  have before : (whole ++ 46 :: fraction).takeWhile (fun char => char != 46) = whole := by
    rw [List.takeWhile_append_of_pos (pointless number), List.takeWhile_cons_of_neg (by decide),
      List.append_nil]
  have after : (whole ++ 46 :: fraction).dropWhile (fun char => char != 46) = 46 :: fraction := by
    rw [List.dropWhile_append_of_pos (pointless number), List.dropWhile_cons_of_neg (by decide)]
  rw [fractionValue, before, after, List.tail_cons]

theorem fractionValue_whole (number : ∀ char ∈ whole, isdigit char = true) :
    fractionValue whole = magnitude whole := by
  have before : whole.takeWhile (fun char => char != 46) = whole :=
    List.takeWhile_eq_self_iff.mpr (pointless number)
  have after : whole.dropWhile (fun char => char != 46) = [] :=
    List.dropWhile_eq_nil_iff.mpr (pointless number)
  rw [fractionValue, before, after]
  simp only [List.tail_nil, List.length_nil, pow_zero, div_one]
  exact add_zero _

/-- Zeros at the end of the fraction do not count. -/
theorem fractionValue_zeros (number : ∀ char ∈ whole, isdigit char = true) (kept : Bytes)
    (count : Nat) :
    fractionValue (whole ++ 46 :: (kept ++ List.replicate count 48)) =
      fractionValue (whole ++ 46 :: kept) := by
  rw [fractionValue_point number, fractionValue_point number, magnitude_zeros, List.length_append,
    List.length_replicate, pow_add]
  push_cast
  rw [mul_div_mul_right _ _ (pow_ne_zero count (by norm_num))]

theorem fractionValue_empty (number : ∀ char ∈ whole, isdigit char = true) :
    fractionValue (whole ++ [46]) = fractionValue whole := by
  rw [fractionValue_point number, fractionValue_whole number]
  simp only [List.length_nil, pow_zero, div_one]
  exact add_zero _

/-- The sign is read apart from the rest. -/
theorem textValue_sign (sign : minus = [] ∨ minus = [45]) (digit : whole ≠ [])
    (number : ∀ char ∈ whole, isdigit char = true) (rest : Bytes) :
    textValue (minus ++ whole ++ rest) =
      if minus = [] then fractionValue (whole ++ rest) else -fractionValue (whole ++ rest) := by
  rcases sign with rfl | rfl
  · cases whole with
    | nil => exact absurd rfl digit
    | cons first others =>
      have plain : first ≠ 45 := (isdigit_ne (number first List.mem_cons_self)).2
      rw [if_pos rfl, textValue, if_neg]
      · rfl
      · exact fun same => plain (Option.some.inj same)
  · rw [if_neg (List.cons_ne_nil _ _)]
    exact if_pos rfl

end Value

/-! ### The standard form -/

/-- Digits are those that count and zeros behind them. -/
theorem split_zeros (digits : Bytes) :
    ∃ kept count, digits = kept ++ List.replicate count 48 ∧ kept.getLast? ≠ some 48 := by
  induction digits using List.reverseRecOn with
  | nil => exact ⟨[], 0, rfl, nofun⟩
  | append_singleton digits last inductionHypothesis =>
    by_cases zero : last = 48
    · obtain ⟨kept, count, rfl, ends⟩ := inductionHypothesis
      refine ⟨kept, count + 1, ?_, ends⟩
      rw [zero, List.replicate_succ', List.append_assoc]
    · refine ⟨digits ++ [last], 0, (List.append_nil _).symm, ?_⟩
      rw [List.getLast?_concat]
      exact fun same => zero (Option.some.inj same)

variable {minus whole fraction : Bytes}

/-- The sign and the digits before the point hold no point and do not end in one. -/
theorem FloatForm.head (form : FloatForm minus whole fraction) :
    46 ∉ minus ++ whole ∧ (minus ++ whole).getLast? ≠ some 46 := by
  have absent : 46 ∉ minus ++ whole := by
    intro member
    rcases List.mem_append.mp member with inMinus | inWhole
    · rcases form.sign with rfl | rfl
      · cases inMinus
      · cases List.mem_singleton.mp inMinus
    · exact (isdigit_ne (form.wholeDigits 46 inWhole)).1 rfl
  exact ⟨absent, fun last => absent (List.mem_of_getLast? last)⟩

/-- Neither zeros at the end nor a point with nothing behind it count. -/
theorem FloatForm.value_zeros (form : FloatForm minus whole fraction) (kept : Bytes) (count : Nat) :
    textValue (minus ++ whole ++ 46 :: (kept ++ List.replicate count 48)) =
      textValue (minus ++ whole ++ 46 :: kept) := by
  rw [textValue_sign form.sign form.digit form.wholeDigits,
    textValue_sign form.sign form.digit form.wholeDigits, fractionValue_zeros form.wholeDigits]

theorem FloatForm.value_point (form : FloatForm minus whole fraction) :
    textValue (minus ++ whole ++ [46]) = textValue (minus ++ whole) := by
  have short := textValue_sign form.sign form.digit form.wholeDigits []
  rw [List.append_nil, List.append_nil] at short
  rw [textValue_sign form.sign form.digit form.wholeDigits, short,
    fractionValue_empty form.wholeDigits]

/-- Of a printed number `bss_cut_zero` leaves the number: the value stays, the zeros behind the
point go, and so does a point with nothing behind it; no digit before the point goes. Where a point
is left a second call changes nothing. -/
theorem bssCutZero_float (form : FloatForm minus whole fraction) (ended : bss.Ended)
    (content : bss.content = minus ++ whole ++ 46 :: fraction) :
    ∃ result, bssCutZero bss = .ok result ∧ result.Ended ∧ result.size = bss.size ∧
      textValue result.content = textValue bss.content ∧
      (46 ∈ result.content → result.content.getLast? ≠ some 48) ∧
      result.content.getLast? ≠ some 46 ∧ minus ++ whole <+: result.content ∧
      (46 ∈ result.content → bssCutZero result = .ok result) := by
  obtain ⟨kept, count, rfl, ends⟩ := split_zeros fraction
  obtain ⟨noPoint, noEnd⟩ := form.head
  rcases List.eq_nil_or_concat kept with rfl | ⟨init, last, rfl⟩
  · -- nothing behind the point counts, and the loop stops at the point
    obtain ⟨result, run, ended', size, cut⟩ := bssCutZero_spec ended content (by decide)
    rw [if_pos rfl] at cut
    refine ⟨result, run, ended', size, ?_, ?_, ?_, ?_, ?_⟩
    · rw [cut, content, form.value_zeros, form.value_point]
    · rw [cut]
      exact fun point => absurd point noPoint
    · rwa [cut]
    · exact cut ▸ List.prefix_rfl
    · rw [cut]
      exact fun point => absurd point noPoint
  · -- the loop stops at the last digit that counts
    rw [List.concat_eq_append] at content ends form
    rw [List.getLast?_concat] at ends
    have digit : isdigit last = true := form.digits last
      (List.mem_append_left _ (List.mem_append_right _ List.mem_cons_self))
    have zero : last ≠ 48 := fun same => ends (congrArg some same)
    have point := (isdigit_ne digit).1
    have split : bss.content = minus ++ whole ++ 46 :: init ++ last :: List.replicate count 48 := by
      rw [content]
      simp only [List.append_assoc, List.cons_append, List.nil_append]
    obtain ⟨result, run, ended', size, cut⟩ := bssCutZero_spec ended split zero
    rw [if_neg point] at cut
    have same : result.content = minus ++ whole ++ 46 :: (init ++ [last]) := by
      rw [cut, List.append_assoc, List.cons_append]
    refine ⟨result, run, ended', size, ?_, fun _ => ?_, ?_, ?_, fun _ => ?_⟩
    · rw [same, content, form.value_zeros]
    · rw [cut, List.getLast?_concat]
      exact fun equal => zero (Option.some.inj equal)
    · rw [cut, List.getLast?_concat]
      exact fun equal => point (Option.some.inj equal)
    · rw [same]
      exact List.prefix_append _ _
    · exact bssCutZero_same ended' cut zero point

/-- The integer part of `-100.50000000000000000` keeps its zeros. -/
theorem bssCutZero_hundred :
    ∃ result, bssCutZero (bssCreate Env.plain 0 (bytes "-100.50000000000000000")) = .ok result ∧
      textValue result.content = textValue (bytes "-100.50000000000000000") := by
  have form : FloatForm (bytes "-") (bytes "100") (bytes "50000000000000000") :=
    ⟨by decide, by decide, by decide +kernel, by decide, by decide +kernel⟩
  have ended := (bssCreate_proper Env.plain 0 (bytes "-100.50000000000000000")).toEnded
  obtain ⟨result, run, -, -, value, -⟩ := bssCutZero_float form ended (by decide)
  exact ⟨result, run, value⟩

end PseudoRedis
