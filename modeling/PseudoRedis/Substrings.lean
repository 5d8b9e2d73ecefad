/-
This file is about `GETRANGE`. The command turns its two offsets into a start and a length
for `create_str_reply`, with signed and unsigned numbers side by side. They stay inside the
string and cut out of its bytes the slice that `LRANGE` cuts out of a list.
-/

import PseudoRedis.Bits
import PseudoRedis.Ranges

namespace PseudoRedis

/-! ### The span of a range -/

/-- The length the command computes for a range that is not empty. -/
def rangeLength (first last : Int) (len : Nat) : Nat :=
  if last > toInt64 len - 1 then toSize (toInt64 len - first) else toSize (last - first + 1)

/-- The start and the length of the bytes passed to `create_str_reply`; an empty range is passed as
`NULL` and zero. -/
def rangeSpan (first last : Int) (len : Nat) : Nat × Nat :=
  if len = 0 ∨ emptyRange (rangeStart first len) (fromEnd last len) len then (0, 0)
  else ((rangeStart first len).toNat, rangeLength (rangeStart first len) (fromEnd last len) len)

variable {first last : Int} {len : Nat}

/-- The start, the length and the last offset of a range that is not empty. -/
theorem rangeSpan_cases (firstRange : IsInt64 first) (lastRange : IsInt64 last)
    (small : len < 2 ^ 63) :
    (rangeSpan first last len = (0, 0) ∧
      (normalize len last < max 0 (normalize len first) ∨
        (len : Int) ≤ max 0 (normalize len first))) ∨
    ∃ start stop : Nat, rangeSpan first last len = (start, stop + 1 - start) ∧
      start ≤ stop ∧ stop < len ∧ (start : Int) = max 0 (normalize len first) ∧
      (stop : Int) = min ((len : Int) - 1) (normalize len last) := by
  have startEq := rangeStart_eq firstRange small
  have stopEq := fromEnd_eq lastRange small
  have below := normalize_lt firstRange small
  have size : toSize (max 0 (normalize len first)) = (max 0 (normalize len first)).toNat :=
    toSize_of_nonneg (by omega) (by omega)
  have signed : toInt64 len = len := by
    refine toInt64_of_isInt64 ?_
    rw [IsInt64, llongMin, llongMax]
    omega
  rw [rangeSpan, startEq, stopEq]
  by_cases none : len = 0 ∨
      emptyRange (max 0 (normalize len first)) (normalize len last) len
  · refine Or.inl ⟨if_pos none, ?_⟩
    rw [emptyRange, size] at none
    omega
  · refine Or.inr ⟨(max 0 (normalize len first)).toNat,
      (min ((len : Int) - 1) (normalize len last)).toNat, ?_⟩
    rw [if_neg none]
    rw [emptyRange, size] at none
    refine ⟨Prod.ext rfl ?_, by omega, by omega, by omega, by omega⟩
    show rangeLength (max 0 (normalize len first)) (normalize len last) len = _
    rw [rangeLength, signed]
    split
    · rw [toSize_of_nonneg (by omega) (by omega)]
      omega
    · rw [toSize_of_nonneg (by omega) (by omega)]
      omega

theorem rangeSpan_inside (firstRange : IsInt64 first) (lastRange : IsInt64 last)
    (small : len < 2 ^ 63) :
    (rangeSpan first last len).1 + (rangeSpan first last len).2 ≤ len := by
  rcases rangeSpan_cases firstRange lastRange small with ⟨none, -⟩ | ⟨start, stop, span, inside⟩
  · rw [none]
    exact Nat.zero_le _
  · rw [span]
    show start + (stop + 1 - start) ≤ len
    omega

/-- The span is that of the slice. -/
theorem slice_eq_span {Item : Type} {seq : List Item} (firstRange : IsInt64 first)
    (lastRange : IsInt64 last) (small : seq.length < 2 ^ 63) :
    slice seq first last =
      (seq.drop (rangeSpan first last seq.length).1).take (rangeSpan first last seq.length).2 := by
  rcases rangeSpan_cases firstRange lastRange small with
    ⟨none, empty⟩ | ⟨start, stop, span, order, inside, startEq, stopEq⟩
  · rw [none, List.take_zero]
    simp only [slice]
    exact if_pos (by omega)
  · have count : ((stop : Int) - start + 1).toNat = stop + 1 - start := by omega
    rw [span]
    simp only [slice]
    rw [← startEq, ← stopEq, if_neg (by omega), count, Int.toNat_natCast]

/-! ### The reply -/

/-- The command replies with these bytes as a string, and leaves the key space alone. -/
def RepliesString (dict : Dict Obj) (run : Run Obj) (data : Bytes) : Prop :=
  ∀ sh, ∃ result, run sh = .ok result ∧ result.dict = dict ∧ result.ret = 0 ∧
    result.sh.curr.replyType = rplyString ∧
    result.sh.curr.data.take result.sh.curr.len.toNat = data

theorem stringReply_take (dict : Dict Obj) {s : Bytes} {len : Nat} (inside : len ≤ s.length)
    (fits : len ≤ maxRplySize) : RepliesString dict (stringReply dict s len) (s.take len) := by
  intro sh
  have small : len < 2 ^ 32 := Nat.lt_of_le_of_lt fits (by decide)
  have size : (s.take len).length = len := by
    rw [List.length_take, Nat.min_eq_left inside]
  have built : createStrReply sh s len rplyString = .ok (sh.answer rplyString (s.take len), 0) := by
    rw [createStrReply, if_neg (Nat.not_lt.mpr fits)]
    split
    · rename_i none
      rw [none, List.take_zero]
      rfl
    · rw [if_neg (Nat.not_lt.mpr inside)]
      rfl
  refine ⟨⟨dict, sh.answer rplyString (s.take len), 0⟩, ?_, rfl, rfl, rfl, ?_⟩
  · rw [stringReply, built]
  · show (s.take len ++ sh.curr.data.drop (s.take len).length).take
      (UInt32.ofNat (s.take len).length).toNat = s.take len
    rw [UInt32.toNat_ofNat', size, Nat.mod_eq_of_lt small, List.take_left' size]

variable {dict : Dict Obj} {key firstArg lastArg bss : Bss}

/-- The command passes its span to `create_str_reply`. -/
theorem getrange_span (answer : dictLookUp dict key = some (.string bss))
    (firstNumber : bss2int firstArg = (first, 0)) (lastNumber : bss2int lastArg = (last, 0)) :
    getrangeCommand dict [key, firstArg, lastArg] =
      stringReply dict (bss.str.drop (rangeSpan first last bss.len).1)
        (rangeSpan first last bss.len).2 := by
  simp only [getrangeCommand, firstNumber, lastNumber, answer, ne_eq, not_true_eq_false, or_self,
    if_false]
  rw [rangeSpan]
  by_cases none : bss.len = 0
  · rw [if_pos none, if_pos (Or.inl none)]
    rfl
  · rw [if_neg none]
    by_cases empty : emptyRange (rangeStart first bss.len) (fromEnd last bss.len) bss.len
    · rw [if_pos empty, if_pos (Or.inr empty)]
      rfl
    · rw [if_neg empty, if_neg (not_or.mpr ⟨none, empty⟩)]
      show _ = stringReply dict _ (rangeLength _ _ _)
      rw [rangeLength]
      split <;> rfl

/-- `GETRANGE` replies with the slice of the bytes between its two offsets, as `LRANGE` does with
the entries of a list, and what it passes to `create_str_reply` lies inside the string. -/
theorem getrange_slices (answer : dictLookUp dict key = some (.string bss))
    (firstNumber : bss2int firstArg = (first, 0)) (lastNumber : bss2int lastArg = (last, 0))
    (small : bss.len < 2 ^ 63) (area : bss.len ≤ bss.str.length) :
    (getrangeCommand dict [key, firstArg, lastArg] =
      stringReply dict (bss.str.drop (rangeSpan first last bss.len).1)
        (rangeSpan first last bss.len).2) ∧
    (rangeSpan first last bss.len).1 + (rangeSpan first last bss.len).2 ≤ bss.len ∧
    ((slice bss.content first last).length ≤ maxRplySize →
      RepliesString dict (getrangeCommand dict [key, firstArg, lastArg])
        (slice bss.content first last)) := by
  have passed := getrange_span answer firstNumber lastNumber
  have firstRange := isInt64_of_number firstNumber
  have lastRange := isInt64_of_number lastNumber
  have inside := rangeSpan_inside firstRange lastRange small
  refine ⟨passed, inside, fun fits => ?_⟩
  have length : bss.content.length = bss.len := by
    rw [Bss.content, List.length_take, Nat.min_eq_left area]
  have cut := @slice_eq_span _ _ _ bss.content firstRange lastRange (length ▸ small)
  rw [length] at cut
  have enough : (rangeSpan first last bss.len).2 ≤
      (bss.content.drop (rangeSpan first last bss.len).1).length := by
    rw [List.length_drop, length]
    omega
  have held : (bss.str.drop (rangeSpan first last bss.len).1).take
      (rangeSpan first last bss.len).2 = slice bss.content first last := by
    rw [cut, Bss.content, List.drop_take, List.take_take, Nat.min_eq_left (by omega)]
  rw [cut, List.length_take, Nat.min_eq_left enough] at fits
  rw [passed, ← held]
  refine stringReply_take dict ?_ fits
  rw [List.length_drop]
  omega

/-- `GETRANGE k -5 0` on the key whose value is `A`. -/
theorem getrange_slices_letter :
    RepliesString letterKey
      (getrangeCommand letterKey [textArg 3 "k", textArg 4 "-5", textArg 5 "0"]) (bytes "A") :=
  (@getrange_slices (-5) 0 letterKey (textArg 3 "k") (textArg 4 "-5") (textArg 5 "0")
    (textArg 2 "A") rfl rfl rfl (by decide) (by decide)).2.2 (by decide)

end PseudoRedis
