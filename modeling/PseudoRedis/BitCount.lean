/-
This file is about `BITCOUNT`, which adds up a table of the bits of each byte. The table is
right for every byte; but the bytes are characters with a sign, and those from 128 on give a
negative index. So the count is that of the bits `GETBIT` sees for ASCII strings, and for no
others.
-/

import PseudoRedis.Bits

namespace PseudoRedis

open BitString

/-! ### The table -/

/-- Every entry is the number of bits of its index. -/
theorem bitTable_eq : bitTable = (List.range 256).map fun index =>
    (List.range 8).countP fun place => index.testBit (7 - place) := by
  decide +kernel

theorem bitTable_byte (char : UInt8) :
    bitTable.getD char.toNat 0 = (List.range 8).countP (bitOf char) := by
  rw [bitTable_eq, List.getD_eq_getElem?_getD, List.getElem?_map,
    List.getElem?_range char.toNat_lt]
  rfl

theorem bitTableIndex_of_ascii {char : UInt8} (ascii : char < 128) :
    bitTableIndex char = char.toNat := by
  rw [bitTableIndex, if_pos ascii]

theorem bitTableIndex_neg_iff (char : UInt8) : bitTableIndex char < 0 ↔ ¬ char < 128 := by
  have small := char.toNat_lt
  rw [bitTableIndex]
  split
  · rename_i ascii
    exact iff_of_false (Int.not_lt.mpr (Int.natCast_nonneg _)) (not_not.mpr ascii)
  · rename_i high
    exact iff_of_true (by omega) high

/-! ### The count -/

/-- The loop adds up the bits of ASCII characters. -/
theorem countBits_ascii {data : Bytes} (ascii : ∀ char ∈ data, char < 128) :
    countBits data = .ok (ones data) := by
  induction data with
  | nil => rfl
  | cons char rest inductionHypothesis =>
    obtain ⟨first, others⟩ := List.forall_mem_cons.mp ascii
    have index := bitTableIndex_of_ascii first
    have nonnegative : ¬ ((char.toNat : Int) < 0) := Int.not_lt.mpr (Int.natCast_nonneg _)
    simp only [countBits, index, if_neg nonnegative, inductionHypothesis others, Int.toNat_natCast,
      Except.map, bitTable_byte, ones_cons]

/-- Any other character is looked up in front of the table. -/
theorem countBits_high {data : Bytes} {char : UInt8} (member : char ∈ data)
    (high : ¬ char < 128) : countBits data = .error .outOfBounds := by
  induction data with
  | nil => cases member
  | cons first rest inductionHypothesis =>
    rw [countBits]
    by_cases negative : bitTableIndex first < 0
    · exact if_pos negative
    · rcases List.mem_cons.mp member with rfl | later
      · exact absurd ((bitTableIndex_neg_iff _).mpr high) negative
      · rw [inductionHypothesis later]
        exact if_neg negative

/-- The number of offsets inside a string at which `bss_getbit` returns 1. -/
def countGetbit (bss : Bss) : Nat :=
  (List.range (8 * bss.len)).countP fun offset =>
    match bssGetbit bss offset with
    | .ok 1 => true
    | _ => false

theorem countGetbit_eq {bss : Bss} (inside : bss.len ≤ bss.str.length)
    (small : 8 * bss.len < 2 ^ 64) : countGetbit bss = ones bss.content := by
  have length : bss.content.length = bss.len := by
    rw [Bss.content, List.length_take, Nat.min_eq_left inside]
  rw [countGetbit, ones, length]
  refine List.countP_congr fun offset member => ?_
  have below := List.mem_range.mp member
  rw [bssGetbit_eq inside (by omega)]
  cases bits bss.content offset with
  | false => exact Iff.rfl
  | true => exact Iff.rfl

/-- `bss_count_bit` counts the bits `bss_getbit` returns, `BITCOUNT` replies with their number, and
all indices lie inside the table. -/
structure CountsBits (bss : Bss) : Prop where
  count : bssCountBit bss = .ok (countGetbit bss)
  reply : ∀ dict key, dictLookUp dict key = some (.string bss) →
    bitcountCommand dict [key] = intReply dict (countGetbit bss)
  indices : ∀ char ∈ bss.content, 0 ≤ bitTableIndex char ∧ bitTableIndex char ≤ 255

/-- The bits of a string are counted exactly if all its characters are ASCII. -/
theorem count_bit_iff (bss : Bss) (inside : bss.len ≤ bss.str.length)
    (small : 8 * bss.len < 2 ^ 64) :
    CountsBits bss ↔ ∀ char ∈ bss.content, char < 128 := by
  constructor
  · intro counts char member
    by_contra high
    exact absurd ((bitTableIndex_neg_iff char).mpr high)
      (Int.not_lt.mpr (counts.indices char member).1)
  · intro ascii
    have counted : bssCountBit bss = .ok (countGetbit bss) := by
      rw [bssCountBit, countBits_ascii ascii, countGetbit_eq inside small]
    refine ⟨counted, fun dict key answer => ?_, fun char member => ?_⟩
    · simp only [bitcountCommand, answer, counted]
    · have below := char.toNat_lt
      rw [bitTableIndex_of_ascii (ascii char member)]
      omega

/-- The string `A` has two bits. -/
theorem count_bit_iff_letter : CountsBits (textArg 2 "A") := by
  refine (count_bit_iff (textArg 2 "A") (by decide) (by decide)).mpr fun char member => ?_
  rw [List.mem_singleton.mp (show char ∈ bytes "A" from member)]
  decide

/-- The key space after `SET k \xff`. -/
def highKey : Dict Obj :=
  dictAdd (dictCreate initDictSize) (textArg 1 "k") (.string (textArg 2 "\xff"))

/-- `BITCOUNT k` of a character above ASCII reads in front of the table. -/
theorem bitcount_reads_before :
    ∃ (dict : Dict Obj) (key bss : Bss), Reachable (fun _ _ => True) dict ∧
      dictLookUp dict key = some (.string bss) ∧ bss.len ≤ bss.str.length ∧
      8 * bss.len < 2 ^ 64 ∧ ¬ CountsBits bss ∧
      bitcountCommand dict [key] = fault .outOfBounds := by
  have set : (textCall .set [(1, "k"), (2, "\xff")] (by decide)).run (dictCreate initDictSize)
      (Shared.holding []) =
      .ok ⟨highKey, (createEmptyReply (Shared.holding []) rplyOk).1, 0⟩ := rfl
  refine ⟨highKey, textArg 3 "k", textArg 2 "\xff", .step _ .start trivial set, rfl, by decide,
    by decide, fun counts => ?_, rfl⟩
  have read : bssCountBit (textArg 2 "\xff") = .error .outOfBounds :=
    countBits_high (List.mem_singleton.mpr rfl) (by decide : ¬ (255 : UInt8) < 128)
  have counted := counts.count
  rw [read] at counted
  cases counted

end PseudoRedis
