/-
This file is about `bss_add_sub`, which adds a number to the one a string holds, or
subtracts it. The tests before the addition are exact for every addend that is a `long
long`. A subtraction negates its number first, and the least number has no negation: it
stays what it is, and the tests and the sum are made with the wrong sign.
-/

import PseudoRedis.NonEmpty
import PseudoRedis.Capacity

namespace PseudoRedis

/-! ### The tests -/

/-- `(factor == -1) ? -num : num` as an integer. -/
def signed (num factor : Int) : Int := if factor = -1 then -num else num

theorem signed_eq {factor : Int} (sign : factor = 1 ∨ factor = -1) (num : Int) :
    signed num factor = factor * num := by
  rw [signed]
  rcases sign with rfl | rfl
  · rw [if_neg (by decide), one_mul]
  · rw [if_pos rfl, neg_one_mul]

theorem addend_eq {num factor : Int} (inRange : IsInt64 (signed num factor)) :
    addend num factor = signed num factor := by
  rw [signed] at inRange
  rw [addend, signed]
  split
  · rename_i negative
    rw [if_pos negative] at inRange
    exact toInt64_of_isInt64 inRange
  · rfl

/-- The subtraction made before the addition. -/
def margin (num : Int) : Int := if num ≤ 0 then llongMin - num else llongMax - num

theorem isInt64_margin {num : Int} (inRange : IsInt64 num) : IsInt64 (margin num) := by
  rw [margin]
  rw [IsInt64, llongMin, llongMax] at *
  split <;> omega

/-- The tests refuse exactly the sums that are out of range. -/
theorem overflows_iff {origin num : Int} (originRange : IsInt64 origin) (inRange : IsInt64 num) :
    overflows origin num ↔ ¬ IsInt64 (origin + num) := by
  have bound := isInt64_margin inRange
  rw [overflows]
  split
  · rename_i nonpositive
    rw [margin, if_pos nonpositive] at bound
    rw [toInt64_of_isInt64 bound]
    rw [IsInt64, llongMin, llongMax] at *
    omega
  · rename_i positive
    rw [margin, if_neg positive] at bound
    rw [toInt64_of_isInt64 bound]
    rw [IsInt64, llongMin, llongMax] at *
    omega

/-! ### The string -/

variable {bss : Bss}

/-- The area of an ended string: the bytes in use, a zero, and the rest. -/
theorem Bss.Ended.str_eq (ended : bss.Ended) :
    ∃ rest, bss.str = bss.content ++ 0 :: rest ∧ bss.len = bss.content.length := by
  have area := ended.area
  have size : bss.size = bss.len + bss.free := rfl
  have inside : bss.len < bss.str.length := by omega
  have zero : bss.str[bss.len] = 0 := by
    rw [← Option.some_inj, ← List.getElem?_eq_getElem inside, ended.ended]
  refine ⟨bss.str.drop (bss.len + 1), ?_, ?_⟩
  · rw [Bss.content, ← zero, List.getElem_cons_drop, List.take_append_drop]
  · rw [Bss.content, List.length_take, Nat.min_eq_left (Nat.le_of_lt inside)]

/-- A string that shows a printed number is read as that number. -/
theorem bss2int_of_content (ended : bss.Ended) {value : Int} (inRange : IsInt64 value)
    (content : bss.content = sprintfLld value) : bss2int bss = (value, 0) := by
  obtain ⟨rest, str, len⟩ := ended.str_eq
  rw [content] at str len
  exact bss2int_printed inRange str len

/-- A sum the tests let pass is stored in place. -/
theorem bssAddSub_stores (env : Env) (id : Nat) (proper : bss.Proper) {num factor origin : Int}
    (number : bss2int bss = (origin, 0)) (passed : ¬ overflows origin (addend num factor)) :
    ∃ result, bssAddSub env id bss num factor = .ok (result, 0) ∧ result.Proper ∧
      result.content = sprintfLld (toInt64 (addend num factor + origin)) ∧
      bss2int result = (toInt64 (addend num factor + origin), 0) := by
  have inRange := isInt64_toInt64 (addend num factor + origin)
  obtain ⟨result, assigned, same⟩ := bssSet_in_place env id proper
    (Nat.le_trans (length_sprintfLld_le inRange) (by decide))
  have grown := bssSet_grown proper.toEnded assigned
  have content := bssSet_content assigned
  exact ⟨result, bssAddSub_accepted number passed assigned same, grown.proper proper, content,
    bss2int_of_content grown.toEnded inRange content⟩

theorem bssAddSub_refuses (env : Env) (id : Nat) {num factor origin : Int}
    (number : bss2int bss = (origin, 0)) (refused : overflows origin (addend num factor)) :
    bssAddSub env id bss num factor = .ok (bss, eInvInt) := by
  simp only [bssAddSub, number, refused, or_true, if_true]

/-! ### The exact sum -/

/-- `bss_add_sub` stores the exact sum if that is a `long long`, and refuses it otherwise; none of
its signed operations overflows. -/
structure AddsExactly (env : Env) (id : Nat) (bss : Bss) (num factor origin : Int) : Prop where
  accepts : IsInt64 (origin + factor * num) →
    ∃ result, bssAddSub env id bss num factor = .ok (result, 0) ∧
      result.content = sprintfLld (origin + factor * num) ∧
      bss2int result = (origin + factor * num, 0)
  refuses : ¬ IsInt64 (origin + factor * num) →
    bssAddSub env id bss num factor = .ok (bss, eInvInt)
  negation : IsInt64 (signed num factor)
  test : IsInt64 (margin (signed num factor))
  sum : ¬ overflows origin (addend num factor) → IsInt64 (signed num factor + origin)

/-- The addition and the subtraction are exact unless the least number is subtracted. -/
theorem bssAddSub_exact_iff (env : Env) (id : Nat) (bss : Bss) (num factor origin : Int)
    (proper : bss.Proper) (number : bss2int bss = (origin, 0)) (inRange : IsInt64 num)
    (sign : factor = 1 ∨ factor = -1) :
    AddsExactly env id bss num factor origin ↔ ¬ (factor = -1 ∧ num = llongMin) := by
  constructor
  · rintro adds ⟨rfl, rfl⟩
    exact absurd adds.negation.2 (by decide)
  · intro other
    have negation : IsInt64 (signed num factor) := by
      rw [IsInt64, llongMin, llongMax] at *
      rw [signed]
      split <;> omega
    have originRange : IsInt64 origin := by
      have read := isInt64_bss2int bss
      rwa [number] at read
    have exactly := overflows_iff originRange negation
    have added := addend_eq negation
    rw [← added] at exactly
    have sum : addend num factor + origin = origin + factor * num := by
      rw [added, signed_eq sign, add_comm]
    rw [add_comm, sum] at exactly
    refine ⟨fun fits => ?_, fun beyond => ?_, negation, isInt64_margin negation, fun passed => ?_⟩
    · obtain ⟨result, ran, -, content, read⟩ :=
        bssAddSub_stores env id proper number fun refused => exactly.mp refused fits
      rw [sum, toInt64_of_isInt64 fits] at content read
      exact ⟨result, ran, content, read⟩
    · exact bssAddSub_refuses env id number (exactly.mpr beyond)
    · rw [← added, sum]
      exact not_not.mp fun beyond => passed (exactly.mpr beyond)

/-- `7 - 5`. -/
theorem bssAddSub_exact_iff_seven : AddsExactly Env.plain 3 (textArg 2 "7") 5 (-1) 7 :=
  (bssAddSub_exact_iff Env.plain 3 (textArg 2 "7") 5 (-1) 7
    (bssCreate_proper Env.plain 2 (bytes "7")) rfl ⟨by decide, by decide⟩ (Or.inr rfl)).mpr
      fun both => absurd both.2 (by decide)

/-- The least number is added where it should be subtracted: a negative number is refused, and any
other one gets a result of the wrong sign. -/
theorem bssAddSub_least (env : Env) (id : Nat) {origin : Int} (proper : bss.Proper)
    (number : bss2int bss = (origin, 0)) :
    (origin < 0 → bssAddSub env id bss llongMin (-1) = .ok (bss, eInvInt)) ∧
      (0 ≤ origin → ∃ result, bssAddSub env id bss llongMin (-1) = .ok (result, 0) ∧
        result.content = sprintfLld (toInt64 (llongMin + origin))) := by
  have wrapped : addend llongMin (-1) = llongMin := by decide
  have tests : overflows origin llongMin ↔ 0 > origin := by
    rw [overflows, if_pos (by decide)]
    exact Iff.rfl
  constructor
  · intro negative
    exact bssAddSub_refuses env id number (by rw [wrapped]; exact tests.mpr negative)
  · intro nonnegative
    have passed : ¬ overflows origin (addend llongMin (-1)) := by
      rw [wrapped, tests]
      exact Int.not_lt.mpr nonnegative
    obtain ⟨result, ran, -, content, -⟩ := bssAddSub_stores env id proper number passed
    rw [wrapped] at content
    exact ⟨result, ran, content⟩

/-- Subtracting the least number from `-1` is refused, though the result is the largest number; and
subtracting it from `0` gives the least number itself. -/
theorem bssAddSub_inexact :
    ∃ (env : Env) (id : Nat) (bss zero : Bss), bss.Proper ∧ bss2int bss = (-1, 0) ∧
      IsInt64 llongMin ∧ ¬ AddsExactly env id bss llongMin (-1) (-1) ∧
      -1 + -1 * llongMin = llongMax ∧ bssAddSub env id bss llongMin (-1) = .ok (bss, eInvInt) ∧
      bss2int zero = (0, 0) ∧ ∃ result, bssAddSub env id zero llongMin (-1) = .ok (result, 0) ∧
        result.content = sprintfLld llongMin := by
  have proper (text : String) : (textArg 2 text).Proper := bssCreate_proper Env.plain 2 (bytes text)
  have refused := (bssAddSub_least Env.plain 3 (proper "-1") rfl).1 (by decide)
  obtain ⟨result, ran, content⟩ := (bssAddSub_least Env.plain 3 (proper "0") rfl).2 (Int.le_refl 0)
  refine ⟨Env.plain, 3, textArg 2 "-1", textArg 2 "0", proper "-1", rfl, ⟨by decide, by decide⟩,
    fun adds => ?_, by decide, refused, rfl, result, ran, content⟩
  obtain ⟨own, accepted, -⟩ := adds.accepts ⟨by decide, by decide⟩
  rw [refused] at accepted
  cases accepted

end PseudoRedis
