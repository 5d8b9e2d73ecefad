/-
This file is the list algebra of a bucketed table. A table is a family of chains,
one for each slot; its contents are the chains of its first `size` slots put one
after the other. Replacing one chain leaves every other slot alone, so the contents
before and after share a remainder, and what a table operation does to its contents
is what it does to one chain. A walk over the slots in consecutive pieces meets every
element once, even if the table changes between the pieces.
-/

import Mathlib.Data.List.Perm.Basic
import Mathlib.Data.List.Range

namespace Slots

variable {Element : Type}

/-! ### Replacing one chain -/

/-- The table with one chain replaced. -/
def set (slots : Nat → List Element) (index : Nat) (chain : List Element) :
    Nat → List Element :=
  fun other => if other = index then chain else slots other

@[simp]
theorem set_self (slots : Nat → List Element) (index : Nat) (chain : List Element) :
    set slots index chain index = chain := if_pos rfl

theorem set_of_ne (slots : Nat → List Element) {index other : Nat} (chain : List Element)
    (different : other ≠ index) : set slots index chain other = slots other :=
  if_neg different

@[simp]
theorem set_set (slots : Nat → List Element) (index : Nat) (first second : List Element) :
    set (set slots index first) index second = set slots index second := by
  funext other
  by_cases same : other = index
  · rw [same, set_self, set_self]
  · rw [set_of_ne _ _ same, set_of_ne _ _ same, set_of_ne _ _ same]

@[simp]
theorem set_eq_self (slots : Nat → List Element) (index : Nat) :
    set slots index (slots index) = slots := by
  funext other
  by_cases same : other = index
  · rw [same, set_self]
  · rw [set_of_ne _ _ same]

/-! ### The contents of the first slots -/

/-- The elements of the first `size` slots, in slot order. -/
def contents (slots : Nat → List Element) (size : Nat) : List Element :=
  (List.range size).flatMap slots

theorem mem_contents {slots : Nat → List Element} {size : Nat} {element : Element} :
    element ∈ contents slots size ↔ ∃ index < size, element ∈ slots index := by
  simp only [contents, List.mem_flatMap, List.mem_range]

/-- The slots other than one contribute a remainder that replacing that one chain does not
touch. -/
theorem contents_split (slots : Nat → List Element) {size index : Nat} (inside : index < size) :
    ∃ remainder, (contents slots size).Perm (slots index ++ remainder) ∧
      ∀ chain, (contents (set slots index chain) size).Perm (chain ++ remainder) := by
  refine ⟨((List.range size).erase index).flatMap slots, ?_, fun chain => ?_⟩
  · exact (List.perm_cons_erase (List.mem_range.mpr inside)).flatMap_right slots
  · refine ((List.perm_cons_erase (List.mem_range.mpr inside)).flatMap_right _).trans ?_
    rw [List.flatMap_cons, set_self]
    refine List.Perm.append_left chain (List.Perm.of_eq ?_)
    refine List.flatMap_congr fun other member => ?_
    rw [set_of_ne]
    exact ((List.nodup_range).mem_erase_iff.mp member).1

/-- A chain put into an empty slot. -/
theorem contents_set_of_nil (slots : Nat → List Element) {size index : Nat}
    (inside : index < size) (empty : slots index = []) (chain : List Element) :
    (contents (set slots index chain) size).Perm (chain ++ contents slots size) := by
  obtain ⟨remainder, same, replaced⟩ := contents_split slots inside
  rw [empty, List.nil_append] at same
  exact (replaced chain).trans (same.symm.append_left chain)

theorem contents_succ (slots : Nat → List Element) (size : Nat) :
    contents slots (size + 1) = contents slots size ++ slots size := by
  rw [contents, contents, List.range_succ, List.flatMap_append, List.flatMap_singleton]

theorem sublist_contents (slots : Nat → List Element) {size index : Nat} (inside : index < size) :
    (slots index).Sublist (contents slots size) :=
  List.sublist_flatten_of_mem (List.mem_map_of_mem (List.mem_range.mpr inside))

theorem contents_map {Other : Type} (slots : Nat → List Element) (f : Element → Other)
    (size : Nat) :
    contents (fun index => (slots index).map f) size = (contents slots size).map f :=
  List.map_flatMap.symm

theorem contents_filter (slots : Nat → List Element) (p : Element → Bool) (size : Nat) :
    contents (fun index => (slots index).filter p) size = (contents slots size).filter p :=
  List.filter_flatMap.symm

/-- A chain with its elements mapped. -/
theorem map_set {Other : Type} (slots : Nat → List Element) (f : Element → Other) (index : Nat)
    (chain : List Element) :
    (fun other => (set slots index chain other).map f) =
      set (fun other => (slots other).map f) index (chain.map f) := by
  funext other
  by_cases same : other = index
  · rw [same, set_self, set_self]
  · rw [set_of_ne _ _ same, set_of_ne _ _ same]

/-! ### Pieces of the contents -/

/-- The elements of the slots from `first` up to `last`. -/
def piece (slots : Nat → List Element) (first last : Nat) : List Element :=
  (List.range' first (last - first)).flatMap slots

theorem mem_piece {slots : Nat → List Element} {first last : Nat} {element : Element} :
    element ∈ piece slots first last ↔
      ∃ index, first ≤ index ∧ index < last ∧ element ∈ slots index := by
  rw [piece, List.mem_flatMap]
  refine exists_congr fun index => ?_
  rw [List.mem_range'_1, ← and_assoc]
  exact and_congr_left fun _ => by omega

@[simp]
theorem piece_self (slots : Nat → List Element) (first : Nat) : piece slots first first = [] := by
  rw [piece, Nat.sub_self]
  rfl

/-- A piece reads its own slots only. -/
theorem piece_congr {slots slots' : Nat → List Element} {first last : Nat}
    (same : ∀ index, first ≤ index → slots' index = slots index) :
    piece slots' first last = piece slots first last :=
  List.flatMap_congr fun index member => same index (List.mem_range'_1.mp member).1

/-- A piece starts with the chain of its first slot. -/
theorem piece_cons (slots : Nat → List Element) {first last : Nat} (some : first < last) :
    piece slots first last = slots first ++ piece slots (first + 1) last := by
  have length : last - first = last - (first + 1) + 1 := by omega
  rw [piece, piece, length, List.range'_succ, List.flatMap_cons]

theorem piece_append (slots : Nat → List Element) {first middle last : Nat}
    (before : first ≤ middle) (after : middle ≤ last) :
    piece slots first middle ++ piece slots middle last = piece slots first last := by
  have start : middle = first + (middle - first) := by omega
  have length : last - first = middle - first + (last - middle) := by omega
  rw [piece, piece, piece, length, ← List.range'_append_1, List.flatMap_append, ← start]

theorem contents_eq_piece (slots : Nat → List Element) (size : Nat) :
    contents slots size = piece slots 0 size := by
  rw [contents, piece, List.range_eq_range', Nat.sub_zero]

variable {Name : Type} [BEq Name] [LawfulBEq Name]

/-- A name that occurs once, in its home slot, occurs once in the pieces with that slot and not in
the others. -/
theorem count_piece {slots : Nat → List Element} {size home first last : Nat}
    {name : Element → Name} {target : Name}
    (once : ((contents slots size).map name).count target = 1)
    (located : ∀ index, ∀ element ∈ slots index, name element = target → index = home)
    (order : first ≤ last) (inside : last ≤ size) :
    ((piece slots first last).map name).count target =
      if first ≤ home ∧ home < last then 1 else 0 := by
  have outside {first last : Nat} (other : ¬ (first ≤ home ∧ home < last)) :
      ((piece slots first last).map name).count target = 0 := by
    rw [List.count_eq_zero, List.mem_map]
    rintro ⟨element, member, same⟩
    obtain ⟨index, lower, upper, inSlot⟩ := mem_piece.mp member
    exact other (located index element inSlot same ▸ ⟨lower, upper⟩)
  by_cases here : first ≤ home ∧ home < last
  · have before : ((piece slots 0 first).map name).count target = 0 := outside (by omega)
    have after : ((piece slots last size).map name).count target = 0 := outside (by omega)
    rw [contents_eq_piece, ← piece_append slots (Nat.zero_le first) (order.trans inside),
      ← piece_append slots order inside, List.map_append, List.map_append, List.count_append,
      List.count_append, before, after, Nat.zero_add, Nat.add_zero] at once
    rw [if_pos here, once]
  · rw [if_neg here, outside here]

end Slots
