/-
This file embeds the array half of `display_reply` from `client.c` and shows that it
reads back what `create_arr_reply` encoded. The client walks over the data with a
pointer and never looks at a length before it reads; here the pointer is the rest of
the data, and a read past the last byte has no result.

What the client prints is a function of the tags and bytes the walk yields, so the walk
is all of the decoder. The encoder's own bits are masked off the tags it sends.
-/

import PseudoRedis.Fits

namespace PseudoRedis

/-! ### The walk -/

/-- What the client sees of an element: its tag, and the bytes of a string. -/
structure Shown where
  type : UInt8
  data : Option Bytes
  deriving DecidableEq

/-- `len = *(uint32_t *)pos` and the bytes after it, with the rest of the data. -/
def readStr (pos : Bytes) : Option (Bytes × Bytes) :=
  match readLittleEndian32 pos with
  | none => none
  | some len =>
      if pos.length < 4 + len then none
      else some ((pos.drop 4).take len, pos.drop (4 + len))

theorem length_of_readStr {pos data rest : Bytes} (found : readStr pos = some (data, rest)) :
    rest.length ≤ pos.length := by
  unfold readStr at found
  split at found
  · cases found
  · split at found
    · cases found
    · cases found
      rw [List.length_drop]
      exact Nat.sub_le _ _

/-- The loop over the elements up to the ending tag, with the data after it. -/
def elementWalk (pos : Bytes) : Option (List Shown × Bytes) :=
  match pos with
  | [] => none
  | type :: pos =>
      if strEnd &&& type ≠ 0 then
        some ([], pos)
      else if strNil &&& type ≠ 0 then
        (elementWalk pos).map fun (shown, rest) => (⟨type, none⟩ :: shown, rest)
      else
        match _read : readStr pos with
        | none => none
        | some (data, pos) =>
            (elementWalk pos).map fun (shown, rest) => (⟨type, some data⟩ :: shown, rest)
termination_by pos.length
decreasing_by
  · exact Nat.lt_succ_self _
  · exact Nat.lt_succ_of_le (length_of_readStr _read)

/-- The two array cases of `display_reply`, on the data the header announces: the cursor of a
double array, the elements, and the data that is left. -/
def displayReply (reply : Reply) : Option (Option Bytes × List Shown × Bytes) :=
  let data := reply.data.take reply.len.toNat
  if reply.replyType = rplyDbArr then
    match readStr data.tail with
    | none => none
    | some (cursor, pos) =>
        (elementWalk pos).map fun (shown, rest) => (some cursor, shown, rest)
  else if reply.replyType = rplyArr then
    (elementWalk data).map fun (shown, rest) => (none, shown, rest)
  else
    none

/-! ### Elements the client can read -/

/-- A nil with or without an index, or a string of at most one megabyte whose tag has no bits but
these three. -/
inductive Elem.Sendable : Elem → Prop
  | nil (bss : Option Bss) (type : UInt8) (tag : type = strNil ∨ type = strNil ||| strNi) :
      Sendable ⟨bss, type⟩
  | string (bss : Bss) (type : UInt8)
      (tag : type &&& ~~~(strNotQuoted ||| strNi ||| needFree) = 0)
      (short : bss.len ≤ 1024 * 1024) (area : bss.len ≤ bss.str.length) :
      Sendable ⟨some bss, type⟩

/-- What the client should see of an element. -/
def Elem.shown (elem : Elem) : Shown :=
  { type := elem.type &&& typeMask
    data := if strNil &&& elem.type ≠ 0 then none else elem.bss.map Bss.content }

/-- A tag has none of the bits outside the ones it may have. -/
theorem bit_clear {type allowed bit : UInt8} (tag : type &&& ~~~allowed = 0)
    (outside : ~~~allowed &&& bit = bit) : bit &&& type = 0 := by
  rw [UInt8.and_comm, ← outside, ← UInt8.and_assoc, tag, UInt8.zero_and]

theorem mask_bit {type bit : UInt8} (sent : typeMask &&& bit = bit) :
    bit &&& (type &&& typeMask) = bit &&& type := by
  rw [UInt8.and_comm, UInt8.and_assoc, sent, UInt8.and_comm]

/-! ### Reading one element back -/

theorem readStr_append (bss : Bss) (short : bss.len ≤ 1024 * 1024)
    (area : bss.len ≤ bss.str.length) (rest : Bytes) :
    readStr (littleEndian32 (UInt32.ofNat bss.len).toNat ++
      bss.str.take (UInt32.ofNat bss.len).toNat ++ rest) = some (bss.content, rest) := by
  have small : (UInt32.ofNat bss.len).toNat = bss.len := by
    rw [UInt32.toNat_ofNat']
    exact Nat.mod_eq_of_lt (Nat.lt_of_le_of_lt short (by decide))
  have size : (bss.str.take bss.len).length = bss.len := by
    rw [List.length_take, Nat.min_eq_left area]
  have prefixLength : (littleEndian32 bss.len).length = 4 := rfl
  rw [readStr, small, List.append_assoc, readLittleEndian32_append _ (by omega)]
  have long : ¬ (littleEndian32 bss.len ++ (bss.str.take bss.len ++ rest)).length <
      4 + bss.len := by
    rw [List.length_append, List.length_append, size, prefixLength]
    omega
  simp only [if_neg long]
  rw [← List.drop_drop, List.drop_left' prefixLength, List.drop_left' size,
    List.take_left' size]
  rfl

theorem elementWalk_encode {elem : Elem} (sendable : elem.Sendable) (rest : Bytes) :
    elementWalk (elem.encode ++ rest) =
      (elementWalk rest).map fun (shown, left) => (elem.shown :: shown, left) := by
  cases sendable with
  | nil bss type tag =>
    have isNil : strNil &&& type ≠ 0 := by rcases tag with rfl | rfl <;> decide
    have sentNil : strNil &&& (type &&& typeMask) ≠ 0 := by rcases tag with rfl | rfl <;> decide
    have sentEnd : strEnd &&& (type &&& typeMask) = 0 := by rcases tag with rfl | rfl <;> decide
    rw [Elem.encode, if_pos isNil, List.singleton_append, elementWalk,
      if_neg (not_not.mpr sentEnd), if_pos sentNil]
    simp only [Elem.shown, if_pos isNil]
  | string bss type tag short area =>
    have notNil : strNil &&& type = 0 := bit_clear tag (by decide)
    have notEnd : strEnd &&& type = 0 := bit_clear tag (by decide)
    have sentNil : strNil &&& (type &&& typeMask) = 0 := (mask_bit (by decide)).trans notNil
    have sentEnd : strEnd &&& (type &&& typeMask) = 0 := (mask_bit (by decide)).trans notEnd
    have read := readStr_append bss short area rest
    rw [List.append_assoc] at read
    rw [Elem.encode, if_neg (not_not.mpr notNil), List.append_assoc, List.cons_append, elementWalk,
      if_neg (not_not.mpr sentEnd), if_neg (not_not.mpr sentNil)]
    split
    · rename_i missing
      rw [read] at missing
      cases missing
    · rename_i data pos found
      rw [read] at found
      cases found
      simp only [Elem.shown, if_neg (not_not.mpr notNil), Option.map_some]

/-! ### Reading the whole array back -/

theorem elementWalk_elems {elems : List Elem} (sendable : ∀ elem ∈ elems, elem.Sendable) :
    elementWalk (elems.flatMap Elem.encode ++ [strEnd]) = some (elems.map Elem.shown, []) := by
  induction elems with
  | nil =>
    rw [List.flatMap_nil, List.nil_append, elementWalk]
    rfl
  | cons elem rest inductionHypothesis =>
    rw [List.flatMap_cons, List.append_assoc, elementWalk_encode (sendable elem List.mem_cons_self),
      inductionHypothesis fun later member => sendable later (List.mem_cons_of_mem _ member)]
    rfl

/-- The client recovers the tags and the bytes of the elements and stops at the end of the data; in
a double array the first string is the cursor. -/
theorem displayReply_createArrReply (env : Env) (sh after : Shared)
    (sendable : ∀ elem ∈ sh.elems, elem.Sendable) :
    (createArrReply env sh rplyArr = .ok (after, 0) →
      displayReply after.curr = some (none, sh.elems.map Elem.shown, [])) ∧
    (∀ cursor type rest, sh.elems = ⟨some cursor, type⟩ :: rest → strNil &&& type = 0 →
      createArrReply env sh rplyDbArr = .ok (after, 0) →
      displayReply after.curr = some (some cursor.content, rest.map Elem.shown, [])) := by
  constructor
  · intro built
    obtain ⟨type, data⟩ := announced_data built
    have notDouble : ¬ rplyArr = rplyDbArr := by decide
    simp only [displayReply, type, if_neg notDouble, if_pos, data, elementWalk_elems sendable]
    rfl
  · intro cursor tag rest split string built
    obtain ⟨type, data⟩ := announced_data built
    rw [split] at data sendable
    have shape := sendable _ List.mem_cons_self
    have later : ∀ elem ∈ rest, elem.Sendable :=
      fun elem member => sendable elem (List.mem_cons_of_mem _ member)
    have read : readStr (List.tail (after.curr.data.take after.curr.len.toNat)) =
        some (cursor.content, rest.flatMap Elem.encode ++ [strEnd]) := by
      rw [data, List.flatMap_cons, List.append_assoc, Elem.encode,
        if_neg (not_not.mpr string)]
      cases shape with
      | nil bss other nilTag =>
        exact absurd string (by rcases nilTag with rfl | rfl <;> decide)
      | string bss other stringTag short area => exact readStr_append cursor short area _
    simp only [displayReply, type, if_pos, read, elementWalk_elems later]
    rfl

theorem displayReply_short :
    (∃ after, createArrReply Env.plain (Shared.holding shortElems) rplyArr = .ok (after, 0) ∧
      displayReply after.curr = some (none, [⟨0, some [65]⟩, ⟨1, none⟩], [])) ∧
    (∃ after, createArrReply Env.plain (Shared.holding shortElems) rplyDbArr = .ok (after, 0) ∧
      displayReply after.curr = some (some [65], [⟨1, none⟩], [])) := by
  have same : (Shared.holding shortElems).elems = shortElems := elems_holding (by decide)
  have sendable : ∀ elem ∈ (Shared.holding shortElems).elems, elem.Sendable := by
    rw [same]
    rintro elem (_ | ⟨_, _ | ⟨_, ⟨⟩⟩⟩)
    · exact Elem.Sendable.string _ _ (by decide) (by decide) (by decide)
    · exact Elem.Sendable.nil _ _ (Or.inl rfl)
  refine ⟨⟨_, rfl, ?_⟩, ⟨_, rfl, ?_⟩⟩
  · exact (displayReply_createArrReply Env.plain _ _ sendable).1 rfl
  · exact (displayReply_createArrReply Env.plain _ _ sendable).2 _ _ _ same rfl rfl

end PseudoRedis
