/-
This file is about the field `arr_num` of an array reply. `create_arr_reply` decides by a
tag whether the leading cursor of a double array is to be left out of the number, but
the tag it looks at is the one of the last element, which the loop has left in `type`:
the kind of the reply is in `arr_type`.
-/

import PseudoRedis.Client
import PseudoRedis.NonEmpty

namespace PseudoRedis

/-! ### What the client numbers -/

/-- All elements of an array, and all but the leading cursor of a double array. -/
def numbered (arrType : UInt8) (elems : List Elem) : Nat :=
  if arrType = rplyDbArr then elems.length - 1 else elems.length

/-- The client shows an array of this many elements, its cursor apart. -/
def Numbers (reply : Reply) (count : Nat) : Prop :=
  ∃ cursor shown, displayReply reply = some (cursor, shown, []) ∧ shown.length = count

/-- An array the client can read: an array, or a double array that starts with a string. -/
inductive Readable : UInt8 → List Elem → Prop
  | arr {elems : List Elem} (sendable : ∀ elem ∈ elems, elem.Sendable) : Readable rplyArr elems
  | dbArr {cursor : Bss} {type : UInt8} {rest : List Elem} (string : strNil &&& type = 0)
      (sendable : ∀ elem ∈ ⟨some cursor, type⟩ :: rest, elem.Sendable) :
      Readable rplyDbArr (⟨some cursor, type⟩ :: rest)

theorem numbers_of_built {env : Env} {sh after : Shared} {arrType : UInt8}
    (built : createArrReply env sh arrType = .ok (after, 0))
    (readable : Readable arrType sh.elems) :
    Numbers after.curr (numbered arrType sh.elems) := by
  generalize same : sh.elems = elems at readable
  cases readable with
  | arr sendable =>
    have shows := (displayReply_createArrReply env sh after (same ▸ sendable)).1 built
    refine ⟨none, _, shows, ?_⟩
    rw [List.length_map, same, numbered, if_neg (by decide : rplyArr ≠ rplyDbArr)]
  | dbArr string sendable =>
    have shows := (displayReply_createArrReply env sh after (same ▸ sendable)).2
      _ _ _ same string built
    refine ⟨_, _, shows, ?_⟩
    rw [List.length_map, numbered, if_pos rfl, List.length_cons, Nat.add_sub_cancel]

/-! ### What the header announces -/

theorem toNat_announcedNum (env : Env) {elems : List Elem} (few : elems.length < 2 ^ 32) :
    (announcedNum env elems).toNat =
      if lastType env.stack elems = rplyArr then elems.length
      else if elems = [] then 2 ^ 32 - 1
      else elems.length - 1 := by
  have count : (UInt32.ofNat elems.length).toNat = elems.length := by
    rw [UInt32.toNat_ofNat', Nat.mod_eq_of_lt few]
  rw [announcedNum]
  by_cases tag : lastType env.stack elems = rplyArr
  · rw [if_pos tag.symm, if_pos tag, count]
  · rw [if_neg (Ne.symm tag), if_neg tag, UInt32.toNat_sub, count]
    cases elems with
    | nil => rfl
    | cons elem rest =>
      -- the subtraction does not wrap around if there is an element
      have one : (1 : UInt32).toNat = 1 := rfl
      rw [if_neg (List.cons_ne_nil elem rest), one]
      rw [List.length_cons] at few ⊢
      omega

/-- The header is right exactly if the tag agrees with the kind of the reply. -/
theorem announcedNum_eq_iff (env : Env) (arrType : UInt8) {elems : List Elem}
    (few : elems.length < 2 ^ 32) :
    (announcedNum env elems).toNat = numbered arrType elems ↔
      (lastType env.stack elems = rplyArr ↔ arrType ≠ rplyDbArr ∨ elems = []) := by
  rw [toNat_announcedNum env few, numbered]
  cases elems with
  | nil =>
    by_cases tag : lastType env.stack [] = rplyArr <;> simp [tag]
  | cons elem rest =>
    by_cases tag : lastType env.stack (elem :: rest) = rplyArr <;>
      by_cases double : arrType = rplyDbArr <;> simp [tag, double]

theorem few_elems (sh : Shared) : sh.elems.length < 2 ^ 32 := by
  rw [length_elems]
  exact Nat.lt_trans sh.rplyArrLen.toNat_lt (by decide)

/-- The client numbers all elements it should, whatever the header says, and the header says as
much exactly if the tag the loop leaves behind agrees with the kind of the reply. -/
theorem arr_num_numbered_iff {env : Env} {sh after : Shared} {arrType : UInt8}
    (built : createArrReply env sh arrType = .ok (after, 0)) :
    (Readable arrType sh.elems → Numbers after.curr (numbered arrType sh.elems)) ∧
      (after.curr.arrNum.toNat = numbered arrType sh.elems ↔
        (lastType env.stack sh.elems = rplyArr ↔ arrType ≠ rplyDbArr ∨ sh.elems = [])) := by
  refine ⟨numbers_of_built built, ?_⟩
  rw [arrNum_of_built built]
  exact announcedNum_eq_iff env arrType (few_elems sh)

/-- A double array of a cursor and a nil: its header is right. -/
theorem arr_num_numbered_iff_short :
    ∃ after, createArrReply Env.plain (Shared.holding shortElems) rplyDbArr = .ok (after, 0) ∧
      after.curr.arrNum.toNat = numbered rplyDbArr (Shared.holding shortElems).elems := by
  have same : (Shared.holding shortElems).elems = shortElems := elems_holding (by decide)
  refine ⟨_, rfl, (@arr_num_numbered_iff Env.plain _ _ _ rfl).2.mpr ?_⟩
  rw [same]
  exact ⟨fun tag => absurd tag (by decide), fun kind =>
    kind.elim (fun single => absurd rfl single) fun empty => by cases empty⟩

/-! ### The tags that are sent -/

/-- No tag of a string or a nil is the one the code looks for. -/
theorem Elem.Sendable.type_ne {elem : Elem} (sendable : elem.Sendable) :
    elem.type ≠ rplyArr := by
  cases sendable with
  | nil bss type tag =>
    show type ≠ rplyArr
    rcases tag with rfl | rfl <;> decide
  | string bss type tag short area =>
    show type ≠ rplyArr
    rintro rfl
    exact absurd tag (by decide)

theorem lastType_sendable {elems : List Elem} (sendable : ∀ elem ∈ elems, elem.Sendable)
    {start : UInt8} (other : start ≠ rplyArr) : lastType start elems ≠ rplyArr := by
  induction elems generalizing start with
  | nil => exact other
  | cons elem rest inductionHypothesis =>
    exact inductionHypothesis (fun later member => sendable later (List.mem_cons_of_mem _ member))
      (sendable elem List.mem_cons_self).type_ne

theorem Readable.sendable {arrType : UInt8} {elems : List Elem}
    (readable : Readable arrType elems) : ∀ elem ∈ elems, elem.Sendable := by
  cases readable with
  | arr sendable => exact sendable
  | dbArr string sendable => exact sendable

/-- So the header is right for every double array the client can read, and for no array with an
element. -/
theorem arrNum_readable {env : Env} {sh after : Shared} {arrType : UInt8}
    (built : createArrReply env sh arrType = .ok (after, 0))
    (readable : Readable arrType sh.elems) (filled : sh.elems ≠ []) :
    after.curr.arrNum.toNat = numbered arrType sh.elems ↔ arrType = rplyDbArr := by
  rw [arrNum_of_built built, announcedNum_eq_iff env arrType (few_elems sh)]
  obtain ⟨elem, rest, split⟩ := List.exists_cons_of_ne_nil filled
  have sendable := readable.sendable
  rw [split] at sendable ⊢
  have tag : lastType elem.type rest ≠ rplyArr :=
    lastType_sendable (fun later member => sendable later (List.mem_cons_of_mem _ member))
      (sendable elem List.mem_cons_self).type_ne
  constructor
  · intro agrees
    by_contra single
    exact tag (agrees.mpr (Or.inl single))
  · intro double
    exact ⟨fun same => absurd same tag, fun kind =>
      kind.elim (fun single => absurd double single) fun empty => by cases empty⟩

/-- `MGET` of a key that is not there: one nil to show, and no element announced. -/
theorem mget_announces_none :
    ∃ (dict : Dict Obj) (sh after : Shared),
      mgetCommand Env.plain dict [textArg 1 "k"] (Shared.holding []) = .ok ⟨dict, after, 0⟩ ∧
      createArrReply Env.plain sh rplyArr = .ok (after, 0) ∧
      Numbers after.curr 1 ∧ numbered rplyArr sh.elems = 1 ∧
      after.curr.arrNum.toNat = 0 := by
  have one : (Shared.holding [⟨none, strNil⟩]).elems = [⟨none, strNil⟩] :=
    elems_holding (by decide)
  have nils : ∀ elem ∈ [(⟨none, strNil⟩ : Elem)], elem.Sendable := by
    rintro elem (_ | ⟨_, ⟨⟩⟩)
    exact Elem.Sendable.nil _ _ (Or.inl rfl)
  have count : numbered rplyArr (Shared.holding [⟨none, strNil⟩]).elems = 1 := by
    rw [one]
    rfl
  refine ⟨dictCreate initDictSize, Shared.holding [⟨none, strNil⟩], _, rfl, rfl, ?_, count, rfl⟩
  rw [← count]
  exact @numbers_of_built Env.plain _ _ _ rfl (one ▸ Readable.arr nils)

end PseudoRedis
