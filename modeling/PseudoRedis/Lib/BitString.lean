/-
This file is about byte strings as sequences of bits. The bits of a string run from the
highest one of its first byte to the lowest one of its last byte, and a string is
followed by zeros without end, so two strings of different lengths can have the same bits.
-/

import Mathlib.Data.List.Basic
import Mathlib.Logic.Function.Basic

namespace BitString

/-! ### The bits of a byte -/

/-- A bit of a byte, counted from the highest one. -/
def bitOf (byte : UInt8) (place : Nat) : Bool := byte.toNat.testBit (7 - place)

theorem bitOf_zero (place : Nat) : bitOf 0 place = false := Nat.zero_testBit _

theorem eq_zero_of_bitOf {byte : UInt8} (clear : ∀ place < 8, bitOf byte place = false) :
    byte = 0 := by
  refine UInt8.toNat_inj.mp (Nat.eq_of_testBit_eq fun index => ?_)
  rw [show (0 : UInt8).toNat = 0 from rfl, Nat.zero_testBit]
  rcases Nat.lt_or_ge index 8 with low | high
  · have bit := clear (7 - index) (by omega)
    rwa [bitOf, show 7 - (7 - index) = index by omega] at bit
  · refine Nat.testBit_lt_two_pow (Nat.lt_of_lt_of_le byte.toNat_lt ?_)
    exact Nat.pow_le_pow_right (by decide) high

/-! ### The bits of a string -/

/-- A bit of a string; those past its end are zero. -/
def bits (string : List UInt8) (offset : Nat) : Bool :=
  match string[offset / 8]? with
  | some byte => bitOf byte (offset % 8)
  | none => false

theorem bits_of_getElem? {string : List UInt8} {offset : Nat} {byte : UInt8}
    (found : string[offset / 8]? = some byte) :
    bits string offset = bitOf byte (offset % 8) := by
  rw [bits, found]

theorem bits_past_end {string : List UInt8} {offset : Nat} (past : string.length ≤ offset / 8) :
    bits string offset = false := by
  rw [bits, List.getElem?_eq_none past]

/-- Strings whose bytes agree, up to zeros at their ends, have the same bits. -/
theorem bits_congr {first second : List UInt8}
    (same : ∀ index : Nat, first[index]?.getD 0 = second[index]?.getD 0) :
    bits first = bits second := by
  have read (string : List UInt8) (offset : Nat) :
      bits string offset = bitOf (string[offset / 8]?.getD 0) (offset % 8) := by
    rw [bits]
    cases string[offset / 8]? with
    | none => exact (bitOf_zero _).symm
    | some byte => rfl
  funext offset
  rw [read, read, same]

/-- Replacing a byte by one that differs in one bit changes that bit. -/
theorem bits_set {string : List UInt8} {offset : Nat} {old new : UInt8} {value : Bool}
    (found : string[offset / 8]? = some old)
    (changed : ∀ place < 8, bitOf new place = if place = offset % 8 then value
      else bitOf old place) :
    bits (string.set (offset / 8) new) = Function.update (bits string) offset value := by
  obtain ⟨inside, -⟩ := List.getElem?_eq_some_iff.mp found
  funext other
  by_cases byte : other / 8 = offset / 8
  · have here : (string.set (offset / 8) new)[other / 8]? = some new := by
      rw [byte, List.getElem?_set_self inside]
    rw [bits_of_getElem? here, changed _ (Nat.mod_lt _ (by decide))]
    by_cases same : other = offset
    · rw [same, if_pos rfl, Function.update_self]
    · rw [if_neg (by omega), Function.update_of_ne same, bits_of_getElem? (byte ▸ found)]
  · have different : other ≠ offset := fun same => byte (same ▸ rfl)
    rw [Function.update_of_ne different, bits, bits, List.getElem?_set_ne (Ne.symm byte)]

/-- A string without a bit holds zeros only. -/
theorem bits_eq_false_iff (string : List UInt8) :
    (∀ offset, bits string offset = false) ↔ ∀ byte ∈ string, byte = 0 := by
  constructor
  · intro clear byte member
    obtain ⟨index, found⟩ := List.mem_iff_getElem?.mp member
    refine eq_zero_of_bitOf fun place small => ?_
    have here : (8 * index + place) / 8 = index ∧ (8 * index + place) % 8 = place := by omega
    have bit := clear (8 * index + place)
    rwa [@bits_of_getElem? _ _ byte (by rw [here.1]; exact found), here.2] at bit
  · intro zeros offset
    rw [bits]
    split
    · rename_i byte found
      rw [zeros byte (List.mem_of_getElem? found), bitOf_zero]
    · rfl

/-! ### Counting -/

/-- The number of bits of a string that are set. -/
def ones (string : List UInt8) : Nat := (List.range (8 * string.length)).countP (bits string)

/-- The bits of the first byte, and those of the other ones after it. -/
theorem ones_cons (byte : UInt8) (rest : List UInt8) :
    ones (byte :: rest) = (List.range 8).countP (bitOf byte) + ones rest := by
  have length : 8 * (byte :: rest).length = 8 + 8 * rest.length := by
    rw [List.length_cons]
    omega
  have first :
      (List.range 8).countP (bits (byte :: rest)) = (List.range 8).countP (bitOf byte) := by
    refine List.countP_congr fun offset member => ?_
    have small := List.mem_range.mp member
    have here : (byte :: rest)[offset / 8]? = some byte := by
      rw [Nat.div_eq_of_lt small, List.getElem?_cons_zero]
    rw [bits_of_getElem? here, Nat.mod_eq_of_lt small]
  have others : bits (byte :: rest) ∘ (8 + ·) = bits rest := by
    funext offset
    have place : (8 + offset) / 8 = offset / 8 + 1 ∧ (8 + offset) % 8 = offset % 8 := by omega
    show bits (byte :: rest) (8 + offset) = bits rest offset
    rw [bits, bits, place.1, place.2, List.getElem?_cons_succ]
  rw [ones, length, List.range_add, List.countP_append, first, List.countP_map, others, ones]

end BitString
