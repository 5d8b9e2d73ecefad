/-
This file is about `APPEND`. As long as the new bytes fit the spare capacity they are
copied behind the old ones. Otherwise `bss_append` asks for a larger area, and the
statement after its test of the second allocation returns `NULL` whatever the two
allocations gave, which the command then dereferences.
-/

import PseudoRedis.Bits

namespace PseudoRedis

/-! ### Appending in place -/

/-- What a copy and a zero behind it make of the bytes before the zero. -/
theorem take_stored {area str data : Bytes} {offset : Nat}
    (stored : ((store area offset data).bind fun middle =>
      store middle (offset + data.length) [0]) = .ok str) :
    str.take (offset + data.length) = area.take offset ++ data := by
  obtain ⟨middle, first, second⟩ := store_bind stored
  obtain ⟨fits, rfl⟩ := store_inv first
  obtain ⟨-, rfl⟩ := store_inv second
  have copied : (area.take offset ++ data).length = offset + data.length := by
    rw [List.length_append, List.length_take, Nat.min_eq_left (by omega)]
  rw [List.append_assoc, List.take_left' (by rw [List.length_take, List.length_append]; omega),
    List.take_left' copied]

/-- The result of `bss_append` is the string followed by the data, in an area that holds its
capacity. -/
structure Appended (bss result : Bss) (data : Bytes) : Prop where
  content : result.content = bss.content ++ data
  len : result.len = bss.len + data.length
  area : result.size ≤ result.str.length

/-- What fits the spare capacity is appended there. -/
theorem bssAppend_room {bss : Bss} {data : Bytes} (area : bss.size + 1 ≤ bss.str.length)
    (room : data.length ≤ bss.free) :
    ∃ result, bssAppend bss data = .ok (some result) ∧ Appended bss result data := by
  have whole : bss.size = bss.len + bss.free := rfl
  have fits : bss.len + data.length ≤ bss.str.length := by omega
  obtain ⟨middle, first⟩ := exists_store fits
  have fitsEnding : bss.len + data.length + [(0 : UInt8)].length ≤ middle.length := by
    rw [store_length first, List.length_singleton]
    omega
  obtain ⟨str, second⟩ := exists_store fitsEnding
  have stored : ((store bss.str bss.len data).bind fun middle =>
      store middle (bss.len + data.length) [0]) = .ok str := by
    rw [first]
    exact second
  refine ⟨{ bss with len := bss.len + data.length, free := bss.free - data.length, str }, ?_,
    take_stored stored, rfl, ?_⟩
  · rw [bssAppend, if_pos room]
    simp only [stored]
  · show bss.len + data.length + (bss.free - data.length) ≤ str.length
    rw [store_length second, store_length first]
    omega

/-! ### The command -/

/-- Neither of the two allocations of `bss_append` succeeds: twice the old length, and the length
that is needed, each with a byte for the zero. -/
def AppendRefused (env : Env) (bss : Bss) (data : Bytes) : Prop :=
  env.malloc (toSize (sizeofBss + bss.len * 2 + 1)) = false ∧
    env.malloc (toSize (sizeofBss + (bss.len + data.length) + 1)) = false

/-- `APPEND` stores the string followed by the data and replies with the new length, or
`bss_append` fails for want of memory. -/
def Appends (env : Env) (dict : Dict Obj) (key val bss : Bss) : Prop :=
  (∃ result dict', bssAppend bss val.content = .ok (some result) ∧
    Appended bss result val.content ∧
    appendCommand dict [key, val] = intReply dict' ↑(bss.len + val.len) ∧
    dictLookUp dict' key = some (.string result)) ∨
  bssAppend bss val.content = .ok none ∧ AppendRefused env bss val.content

/-- `APPEND` does what it should exactly if the data fits the spare capacity or there is no memory
for more. -/
theorem append_concatenates_iff (env : Env) (dict : Dict Obj) (key bss : Bss) (id : Nat)
    (data : Bytes) (sized : dict.Sized) (answer : dictLookUp dict key = some (.string bss))
    (area : bss.size + 1 ≤ bss.str.length) :
    Appends env dict key (bssCreate env id data) bss ↔
      data.length ≤ bss.free ∨ AppendRefused env bss data := by
  rw [Appends, bssCreate_content, bssCreate_len]
  by_cases room : data.length ≤ bss.free
  · obtain ⟨result, ran, appended⟩ := bssAppend_room area room
    refine iff_of_true (Or.inl ⟨result, dictSetVal dict key (.string result), ran, appended, ?_,
      lookUp_dictSetVal_self sized answer _⟩) (Or.inl room)
    simp only [appendCommand, answer, bssCreate_content, ran, appended.len]
  · have refused : bssAppend bss data = .ok none := by rw [bssAppend, if_neg room]
    rw [refused, or_iff_right room]
    constructor
    · rintro (⟨result, dict', ran, -⟩ | ⟨-, memory⟩)
      · cases ran
      · exact memory
    · exact fun memory => Or.inr ⟨rfl, memory⟩

/-- `APPEND k B` makes `AB` of `A`. -/
theorem append_concatenates_iff_letter :
    Appends Env.plain letterKey (textArg 3 "k") (bssCreate Env.plain 4 [66]) (textArg 2 "A") :=
  (append_concatenates_iff Env.plain letterKey (textArg 3 "k") (textArg 2 "A") 4 [66]
    letterKey_wellFormed.sized rfl (by decide)).mpr (Or.inl (by decide))

/-- One byte more than `A` has room for: `bss_append` gives `NULL`, with all the memory it asks
for, and the command dereferences it. -/
theorem append_fails :
    ∃ (env : Env) (dict : Dict Obj) (key bss : Bss) (id : Nat) (data : Bytes),
      Reachable (fun _ _ => True) dict ∧ dictLookUp dict key = some (.string bss) ∧
      bss.size + 1 ≤ bss.str.length ∧ (∀ size, env.malloc size = true) ∧
      ¬ Appends env dict key (bssCreate env id data) bss ∧
      appendCommand dict [key, bssCreate env id data] = fault .nullPointer := by
  refine ⟨Env.plain, letterKey, textArg 3 "k", textArg 2 "A", 4, List.replicate 22 66,
    letterKey_reachable, rfl, by decide, fun _ => rfl, ?_, rfl⟩
  rintro (⟨result, dict', ran, -⟩ | ⟨-, memory, -⟩)
  · have refused : bssAppend (textArg 2 "A") (List.replicate 22 66) = .ok none := rfl
    rw [bssCreate_content, refused] at ran
    cases ran
  · cases memory

end PseudoRedis
