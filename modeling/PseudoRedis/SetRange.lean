/-
This file is about `SETRANGE`. What it should make of a string is a function of the bytes
in use alone: the string is padded with zeros up to the offset, and the data replaces what
stands there. `bss_setrange` computes it in three ways. A new area is all zeros, and an
area that is long enough needs no padding; but the spare capacity keeps what longer values
left in it, and nothing clears the part of it that the new length takes in.
-/

import PseudoRedis.Append

namespace PseudoRedis

/-! ### Overwriting a part of a string -/

/-- The string with the data at an offset, padded with zeros if it ends before. -/
def overwritten (content : Bytes) (offset : Nat) (data : Bytes) : Bytes :=
  content.take offset ++ List.replicate (offset - content.length) 0 ++ data ++
    content.drop (offset + data.length)

variable {content data : Bytes} {offset : Nat}

theorem length_overwritten (content : Bytes) (offset : Nat) (data : Bytes) :
    (overwritten content offset data).length = max content.length (offset + data.length) := by
  simp only [overwritten, List.length_append, List.length_take, List.length_replicate,
    List.length_drop]
  omega

/-- The bytes before the offset: those of the string, then zeros. -/
theorem getElem?_padded (index : Nat) :
    (content.take offset ++ List.replicate (offset - content.length) 0)[index]? =
      if index < offset then if index < content.length then content[index]? else some 0
      else none := by
  have length : (content.take offset).length = min offset content.length := List.length_take
  by_cases inside : index < content.length
  · by_cases before : index < offset
    · rw [if_pos before, if_pos inside, List.getElem?_append_left (by omega),
        List.getElem?_take_of_lt before]
    · rw [if_neg before, List.getElem?_append_right (by omega), List.getElem?_eq_none]
      rw [List.length_replicate]
      omega
  · rw [List.getElem?_append_right (by omega), List.getElem?_replicate]
    by_cases before : index < offset
    · rw [if_pos before, if_neg inside, if_pos (by omega)]
    · rw [if_neg before, if_neg (by omega)]

/-- A byte of the result comes from the data, from the string, or from the padding. -/
theorem getElem?_overwritten (index : Nat) :
    (overwritten content offset data)[index]? =
      if offset ≤ index ∧ index < offset + data.length then data[index - offset]?
      else if index < content.length then content[index]?
      else if index < offset then some 0 else none := by
  have padded : (content.take offset ++ List.replicate (offset - content.length) 0).length =
      offset := by
    rw [List.length_append, List.length_take, List.length_replicate]
    omega
  rw [overwritten, List.append_assoc]
  rcases Nat.lt_or_ge index offset with before | reached
  · rw [if_neg (by omega), List.getElem?_append_left (by omega), getElem?_padded, if_pos before,
      if_pos before]
  · rw [List.getElem?_append_right (by omega), padded]
    rcases Nat.lt_or_ge index (offset + data.length) with inside | after
    · rw [if_pos ⟨reached, inside⟩, List.getElem?_append_left (by omega)]
    · have index_eq : offset + data.length + (index - offset - data.length) = index := by omega
      rw [if_neg (by omega), List.getElem?_append_right (by omega), List.getElem?_drop, index_eq]
      split
      · rfl
      · rw [if_neg (by omega), List.getElem?_eq_none (by omega)]

/-! ### The bytes in use -/

variable {bss result : Bss}

theorem getElem?_content (bss : Bss) (index : Nat) :
    bss.content[index]? = if index < bss.len then bss.str[index]? else none := List.getElem?_take

/-- A string of the right length holds what it should if its area does. -/
theorem content_eq_overwritten_iff (area : bss.len ≤ bss.str.length)
    (len : result.len = max bss.len (offset + data.length)) :
    result.content = overwritten bss.content offset data ↔
      ∀ index < result.len, result.str[index]? =
        if offset ≤ index ∧ index < offset + data.length then data[index - offset]?
        else if index < bss.len then bss.str[index]? else some 0 := by
  have used : bss.content.length = bss.len := by
    rw [Bss.content, List.length_take, Nat.min_eq_left area]
  rw [List.ext_getElem?_iff]
  refine forall_congr' fun index => ?_
  rw [getElem?_content]
  by_cases inside : index < result.len
  · rw [if_pos inside, getElem?_overwritten, getElem?_content, used]
    refine Iff.trans (Eq.congr_right ?_) (imp_iff_right inside).symm
    split
    · rfl
    · split
      · rfl
      · rw [if_pos (by omega)]
  · have past : (overwritten bss.content offset data)[index]? = none := by
      refine List.getElem?_eq_none ?_
      rw [length_overwritten, used]
      omega
    rw [if_neg inside, past]
    exact iff_of_true rfl fun small => absurd small inside

/-! ### The three ways -/

/-- What `bss_setrange` needs from the allocator if the string is too small. -/
def RangeMemory (env : Env) (len : Nat) : Prop :=
  env.malloc (toSize (sizeofBss + (max len bssMinLen : Nat) + 1)) = true

/-- The string has to move to a new area, or its own area is zero from its end to the offset. -/
def Cleared (bss : Bss) (offset : Nat) (data : Bytes) : Prop :=
  bss.size < offset + data.length ∨
    ∀ index, bss.len ≤ index → index < offset → bss.str[index]? = some 0

/-- The result has the right length, and the right bytes if and only if the gap is clear. -/
structure Ranged (bss result : Bss) (offset : Nat) (data : Bytes) : Prop where
  len : result.len = max bss.len (offset + data.length)
  content : result.content = overwritten bss.content offset data ↔ Cleared bss offset data

theorem toSize_end (fits : EmptyFits (data.length + offset)) :
    toSize ((data.length : Int) + offset) = data.length + offset := by
  rw [EmptyFits] at fits
  exact toSize_natCast (n := data.length + offset) (by omega)

theorem bssCreateEmpty_of_memory {env : Env} {len : Nat} (id : Nat) (fits : EmptyFits len)
    (memory : RangeMemory env len) :
    bssCreateEmpty env id len =
      some ⟨id, 0, max len bssMinLen, List.replicate (max len bssMinLen + 1) 0⟩ := by
  have created : bssCreateEmpty env id len ≠ none := by
    rw [RangeMemory] at memory
    rw [bssCreateEmpty, if_pos memory]
    exact Option.some_ne_none _
  obtain ⟨result, ran⟩ := Option.ne_none_iff_exists'.mp created
  rw [ran, bssCreateEmpty_eq fits ran]

/-- A string that is too small is copied to an area of zeros. -/
theorem bssSetrange_moved {env : Env} (id : Nat) (proper : bss.Proper) (some : data ≠ [])
    (fits : EmptyFits (data.length + offset)) (memory : RangeMemory env (data.length + offset))
    (more : bss.size < data.length + offset) :
    ∃ result, bssSetrange env id bss offset data = .ok (Option.some result) ∧
      Ranged bss result offset data := by
  have area := proper.area
  have large := proper.capacity
  have size : bss.size = bss.len + bss.free := rfl
  have index := toSize_end fits
  have whole : max (data.length + offset) bssMinLen = data.length + offset := by omega
  have kept : (if bss.len > offset then offset else bss.len) = min bss.len offset := by
    split <;> omega
  have copied : (bss.str.take (min bss.len offset)).length = min bss.len offset := by
    rw [List.length_take]
    omega
  have fitsFirst : 0 + (bss.str.take (min bss.len offset)).length ≤
      (List.replicate (data.length + offset + 1) (0 : UInt8)).length := by
    rw [List.length_replicate, copied]
    omega
  obtain ⟨middle, first⟩ := exists_store fitsFirst
  have fitsSecond : offset + data.length ≤ middle.length := by
    rw [store_length first, List.length_replicate]
    omega
  obtain ⟨str, second⟩ := exists_store fitsSecond
  refine ⟨⟨id, data.length + offset, 0, str⟩, ?_, ?_, iff_of_true ?_ (Or.inl (by omega))⟩
  · rw [bssSetrange, if_neg (mt List.length_eq_zero_iff.mp some), index, if_pos more,
      bssCreateEmpty_of_memory id fits memory, kept, whole]
    simp only [first, Except.bind, second]
  · show data.length + offset = _
    omega
  · refine (content_eq_overwritten_iff (by omega) ?_).mpr fun index inside => ?_
    · show data.length + offset = _
      omega
    · rw [getElem?_store second, getElem?_store first, copied]
      split
      · rfl
      · rename_i outside
        have bound : index < data.length + offset := inside
        rw [Nat.zero_add, Nat.sub_zero]
        by_cases old : index < bss.len
        · rw [if_pos old, if_pos (by omega), List.getElem?_take_of_lt (by omega)]
        · rw [if_neg old, if_neg (by omega), List.getElem?_replicate_of_lt (by omega)]

/-- In an area that is long enough the other bytes in use are those of the area. -/
theorem ranged_of_bytes (proper : bss.Proper) (fits : offset + data.length ≤ bss.size)
    (len : result.len = max bss.len (offset + data.length))
    (bytes : ∀ index < result.len, result.str[index]? =
      if offset ≤ index ∧ index < offset + data.length then data[index - offset]?
      else bss.str[index]?) :
    Ranged bss result offset data := by
  have area := proper.area
  have size : bss.size = bss.len + bss.free := rfl
  refine ⟨len, ?_⟩
  rw [content_eq_overwritten_iff (by omega) len, Cleared, or_iff_right (by omega)]
  constructor
  · intro same index ended before
    have byte := same index (by omega)
    rwa [bytes index (by omega), if_neg (by omega), if_neg (by omega), if_neg (by omega)] at byte
  · intro zeros index inside
    rw [bytes index inside]
    split
    · rfl
    · split
      · rfl
      · exact zeros index (by omega) (by omega)

/-- A string that is long enough stays where it is. -/
theorem bssSetrange_kept (env : Env) (id : Nat) (proper : bss.Proper) (some : data ≠ [])
    (fits : EmptyFits (data.length + offset)) (room : data.length + offset ≤ bss.size) :
    ∃ result, bssSetrange env id bss offset data = .ok (Option.some result) ∧
      Ranged bss result offset data := by
  have area := proper.area
  have index := toSize_end fits
  obtain ⟨middle, first⟩ : ∃ middle, store bss.str offset data = .ok middle :=
    exists_store (by omega)
  rw [bssSetrange, if_neg (mt List.length_eq_zero_iff.mp some), index,
    if_neg (Nat.not_lt.mpr room)]
  by_cases longer : data.length + offset > bss.len
  · obtain ⟨str, second⟩ : ∃ str, store middle (data.length + offset) [0] = .ok str := by
      refine exists_store ?_
      rw [store_length first, List.length_singleton]
      omega
    refine ⟨⟨bss.id, data.length + offset, bss.size - (data.length + offset), str⟩, ?_, ?_⟩
    · simp only [if_pos longer, first, Except.bind, second]
    · refine ranged_of_bytes proper (by omega) ?_ fun index inside => ?_
      · show data.length + offset = _
        omega
      · -- the zero stands behind the bytes in use
        have bound : index < data.length + offset := inside
        rw [getElem?_store second, if_neg (by omega), getElem?_store first]
  · refine ⟨{ bss with str := middle }, ?_, ?_⟩
    · simp only [if_neg longer, first]
    · refine ranged_of_bytes proper (by omega) ?_ fun index _ => getElem?_store first index
      show bss.len = _
      omega

theorem bssSetrange_ranged {env : Env} (id : Nat) (proper : bss.Proper) (some : data ≠ [])
    (fits : EmptyFits (data.length + offset)) (memory : RangeMemory env (data.length + offset)) :
    ∃ result, bssSetrange env id bss offset data = .ok (Option.some result) ∧
      Ranged bss result offset data := by
  rcases Nat.lt_or_ge bss.size (data.length + offset) with more | room
  · exact bssSetrange_moved id proper some fits memory more
  · exact bssSetrange_kept env id proper some fits room

/-! ### The command -/

variable {env : Env} {dict : Dict Obj} {key place val : Bss}

/-- `SETRANGE` stores the string with the data at the offset, replies with its length, and leaves
the other keys alone. -/
def SetsRange (env : Env) (dict : Dict Obj) (key place val bss : Bss) (offset : Nat) : Prop :=
  ∃ (result : Bss) (dict' : Dict Obj),
    setrangeCommand env dict [key, place, val] = intReply dict' result.len ∧
    dictLookUp dict' key = some (.string result) ∧
    result.len = max bss.len (offset + val.content.length) ∧
    result.content = overwritten bss.content offset val.content ∧
    ∀ other : Bss, other.Short → other.content ≠ key.content →
      dictLookUp dict' other = dictLookUp dict other

theorem setrangeCommand_eq {result : Bss} (answer : dictLookUp dict key = some (.string bss))
    (number : bss2int place = ((offset : Int), 0))
    (ran : bssSetrange env env.fresh bss (toSize offset) val.content = .ok (some result)) :
    setrangeCommand env dict [key, place, val] =
      intReply (dictSetVal dict key (.string result)) result.len := by
  simp only [setrangeCommand, number, ne_eq, not_true_eq_false, if_false, answer, ran]

/-- `SETRANGE` pads with zeros exactly if the string has to move, or if the spare bytes between its
end and the offset are zero. -/
theorem setrange_pads_iff (env : Env) (dict : Dict Obj) (key place val bss : Bss) (offset : Nat)
    (placed : dict.Placed) (short : key.Short) (answer : dictLookUp dict key = some (.string bss))
    (proper : bss.Proper) (number : bss2int place = ((offset : Int), 0))
    (nonempty : val.content ≠ [])
    (fits : EmptyFits (val.content.length + offset))
    (memory : RangeMemory env (val.content.length + offset)) :
    SetsRange env dict key place val bss offset ↔ Cleared bss offset val.content := by
  obtain ⟨result, ran, len, content⟩ := bssSetrange_ranged env.fresh proper nonempty fits memory
  have size : toSize offset = offset := by
    rw [EmptyFits] at fits
    exact toSize_natCast (by omega)
  have command := setrangeCommand_eq answer number (size.symm ▸ ran)
  have stored := lookUp_dictSetVal_self placed.sized answer (.string result)
  rw [← content]
  constructor
  · rintro ⟨own, dict', same, found, -, bytes, -⟩
    rw [← dict_of_intReply (Shared.holding []) (command.symm.trans same), stored] at found
    cases found
    exact bytes
  · exact fun bytes => ⟨result, _, command, stored, len, bytes, fun other otherShort different =>
      lookUp_dictSetVal_of_ne placed short otherShort _ different⟩

/-- A new key starts from a string of zeros, so nothing is left in its gap. -/
theorem setrangeCommand_new (absent : dictLookUp dict key = none) {offset : Nat}
    (number : bss2int place = ((offset : Int), 0)) (nonempty : val.content ≠ [])
    (fits : EmptyFits (val.content.length + offset)) (fresh : RangeMemory env 0)
    (memory : RangeMemory env (val.content.length + offset)) :
    ∃ result : Bss, setrangeCommand env dict [key, place, val] =
        intReply (dictAdd dict key (.string result)) result.len ∧
      result.len = offset + val.content.length ∧
      result.content = List.replicate offset 0 ++ val.content := by
  have small : EmptyFits 0 := show 16 + max 0 22 + 1 < 2 ^ 64 by decide
  have created := bssCreateEmpty_of_memory env.fresh small fresh
  have proper := bssCreateEmpty_proper small created
  obtain ⟨result, ran, len, content⟩ :=
    bssSetrange_ranged (env.fresh + 1) proper nonempty fits memory
  have size : toSize offset = offset := by
    rw [EmptyFits] at fits
    exact toSize_natCast (by omega)
  refine ⟨result, ?_, len.trans (Nat.zero_max _), ?_⟩
  · simp only [setrangeCommand, number, ne_eq, not_true_eq_false, if_false, absent, newString,
      created, size, ran]
  · rw [content.mpr]
    · simp only [overwritten, Bss.content, List.take_zero, List.take_nil, List.length_nil,
        List.drop_nil, List.nil_append, List.append_nil, Nat.sub_zero]
    · rcases Nat.lt_or_ge 22 (offset + val.content.length) with more | room
      · exact Or.inl more
      · refine Or.inr fun index _ before => ?_
        rw [List.getElem?_replicate_of_lt]
        show index < 22 + 1
        omega

/-- `SETRANGE k 3 x` on `A`, whose spare bytes are zero. -/
theorem setrange_pads_iff_letter :
    SetsRange Env.plain letterKey (textArg 3 "k") (textArg 4 "3") (textArg 5 "x") (textArg 2 "A")
      3 :=
  (setrange_pads_iff Env.plain letterKey (textArg 3 "k") (textArg 4 "3") (textArg 5 "x")
    (textArg 2 "A") 3 letterKey_wellFormed.toPlaced (textArg_arg 3 (by decide)).short rfl
    (bssCreate_proper Env.plain 2 (bytes "A")) rfl (by decide)
    (show 16 + max 4 22 + 1 < 2 ^ 64 by decide) rfl).mpr
      (Or.inr fun index ended before => by
        have cases : index = 1 ∨ index = 2 := by
          have len : (textArg 2 "A").len = 1 := rfl
          omega
        rcases cases with rfl | rfl <;> rfl)

/-- What `DECRBY k 99` makes of `100`: the last zero of the old text stays behind the end. -/
def shrunk : Bss := ⟨2, 1, 21, 49 :: 0 :: 48 :: List.replicate 20 0⟩

/-- The key space after `SET k 100`. -/
def hundredKey : Dict Obj :=
  dictAdd (dictCreate initDictSize) (textArg 1 "k") (.string (textArg 2 "100"))

/-- The key space after `DECRBY k 99` as well. -/
def shrunkKey : Dict Obj := dictSetVal hundredKey (textArg 3 "k") (.string shrunk)

theorem shrunkKey_reachable : Reachable (fun _ _ => True) shrunkKey := by
  have set : (textCall .set [(1, "k"), (2, "100")] (by decide)).run (dictCreate initDictSize)
      (Shared.holding []) =
      .ok ⟨hundredKey, (createEmptyReply (Shared.holding []) rplyOk).1, 0⟩ := rfl
  have decr : (textCall .decrby [(3, "k"), (4, "99")] (by decide)).run hundredKey
      (Shared.holding []) = .ok ⟨shrunkKey, (createIntReply (Shared.holding []) 1).1, 0⟩ := rfl
  exact .step _ (.step _ .start trivial set) trivial decr

/-- What `SETRANGE k 3 x` makes of it. -/
def regrown : Bss := ⟨2, 4, 18, 49 :: 0 :: 48 :: 120 :: List.replicate 19 0⟩

theorem shrunk_proper : shrunk.Proper := ⟨⟨by decide, rfl⟩, by decide⟩

/-- `SETRANGE k 3 x` after these two commands brings the old zero back. -/
theorem setrange_shows_leftover :
    ∃ (env : Env) (dict : Dict Obj) (key place val bss : Bss) (offset : Nat),
      Reachable (fun _ _ => True) dict ∧ dictLookUp dict key = some (.string bss) ∧ bss.Proper ∧
      bss2int place = ((offset : Int), 0) ∧ val.content ≠ [] ∧
      EmptyFits (val.content.length + offset) ∧
      RangeMemory env (val.content.length + offset) ∧
      ¬ SetsRange env dict key place val bss offset ∧
      ∃ (result : Bss) (dict' : Dict Obj),
        setrangeCommand env dict [key, place, val] = intReply dict' result.len ∧
        dictLookUp dict' key = some (.string result) ∧
        result.content = [49, 0, 48, 120] ∧
        overwritten bss.content offset val.content = [49, 0, 0, 120] := by
  have ran : setrangeCommand Env.plain shrunkKey [textArg 3 "k", textArg 4 "3", textArg 5 "x"] =
      intReply (dictSetVal shrunkKey (textArg 3 "k") (.string regrown)) regrown.len := rfl
  have stored : dictLookUp (dictSetVal shrunkKey (textArg 3 "k") (.string regrown))
      (textArg 3 "k") = some (.string regrown) := rfl
  refine ⟨Env.plain, shrunkKey, textArg 3 "k", textArg 4 "3", textArg 5 "x", shrunk, 3,
    shrunkKey_reachable, rfl, shrunk_proper, rfl, by decide,
    show 16 + max 4 22 + 1 < 2 ^ 64 by decide, rfl, ?_, regrown, _, ran, stored, rfl, rfl⟩
  rintro ⟨own, dict', same, found, -, bytes, -⟩
  rw [← dict_of_intReply (Shared.holding []) (ran.symm.trans same), stored] at found
  cases found
  exact absurd bytes (by decide)

end PseudoRedis
