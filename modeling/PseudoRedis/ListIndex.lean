/-
This file is about `LINDEX` and `LSET`, which find an entry by its index, and compares them
with `LRANGE` from the index to itself. The handlers normalise the index alike; but the two
that find one entry walk to it with a counter that is an `int`.
-/

import PseudoRedis.Ranges
import PseudoRedis.RandomElem

namespace PseudoRedis

open Rings

/-! ### The walk to an index -/

variable {heap : ListHeap} {seqs : Sequences} {list entry : Addr}

/-- The loop `for(int i = 0; i <= index; ++i) entry = entry->next`. -/
def stepTo (heap : ListHeap) (index : Int) : Nat → Int → Addr → Option Addr
  | 0, _, _ => none
  | fuel + 1, i, entry =>
      if i ≤ index then stepTo heap index fuel (toInt32 (i + 1)) (heap.next entry) else some entry

/-- The assignment `entry->val = val`. -/
def ListHeap.setVal (heap : ListHeap) (entry : Addr) (val : Bss) : ListHeap :=
  { heap with val := Function.update heap.val entry (some val) }

/-- A counter that stays an `int` comes to the index. -/
theorem stepTo_eq {index i : Int} {steps fuel : Nat} (left : i + steps = index + 1)
    (nonnegative : 0 ≤ i) (few : index < 2 ^ 31 - 1) (enough : steps < fuel) :
    stepTo heap index fuel i entry = some (heap.next^[steps] entry) := by
  obtain ⟨others, rfl⟩ : ∃ others, fuel = others + 1 := ⟨fuel - 1, by omega⟩
  induction steps generalizing i entry others with
  | zero =>
    rw [stepTo, if_neg (by omega)]
    rfl
  | succ steps inductionHypothesis =>
    obtain ⟨fewer, rfl⟩ : ∃ fewer, others = fewer + 1 := ⟨others - 1, by omega⟩
    have counted : toInt32 (i + 1) = i + 1 := (toInt32_eq_iff _).mpr ⟨by omega, by omega⟩
    rw [stepTo, if_pos (by omega), counted, Function.iterate_succ_apply]
    exact inductionHypothesis (by omega) (by omega) fewer (by omega)

theorem stepTo_findEntry {place fuel : Nat} (few : place + 1 < 2 ^ 31) (enough : place + 1 < fuel) :
    stepTo heap place fuel 0 list = some (findEntry heap list place) :=
  stepTo_eq (by omega) (by decide) (by omega) enough

/-! ### The entry under an index -/

variable {seq front back : List Addr} {node : Addr} {entries : List Bss}

theorem Shows.getElem? (shows : Shows heap (front ++ node :: back) entries) :
    entries[front.length]? = heap.val node := by
  have reads := congrArg (fun vals => vals[front.length]?) shows
  rw [List.getElem?_map, List.getElem?_map, List.getElem?_append_right (Nat.le_refl _),
    Nat.sub_self, List.getElem?_cons_zero, Option.map_some] at reads
  cases found : entries[front.length]? with
  | none =>
    rw [found] at reads
    cases reads
  | some val =>
    rw [found] at reads
    exact (Option.some.inj reads).symm

theorem Shows.setVal (shows : Shows heap (front ++ node :: back) entries)
    (apart : node ∉ front ++ back) (val : Bss) :
    Shows (heap.setVal node val) (front ++ node :: back) (entries.set front.length val) := by
  have kept (other : Addr) (member : other ∈ front ++ back) :
      (heap.setVal node val).val other = heap.val other :=
    Function.update_of_ne (fun same : other = node => apart (same ▸ member)) _ _
  have own : (heap.setVal node val).val node = some val := Function.update_self _ _ _
  have frontKept : front.map (heap.setVal node val).val = front.map heap.val :=
    List.map_congr_left fun other member => kept other (List.mem_append_left _ member)
  have backKept : back.map (heap.setVal node val).val = back.map heap.val :=
    List.map_congr_left fun other member => kept other (List.mem_append_right _ member)
  rw [Shows] at shows ⊢
  rw [List.map_set, ← shows, List.map_append, List.map_append, List.map_cons, List.map_cons,
    frontKept, backKept, own, List.set_append_right _ _ (by rw [List.length_map]),
    List.length_map, Nat.sub_self, List.set_cons_zero]

/-- The loops of `LINDEX` and `LSET` over a list in memory come to the entry at a place, and a
string assigned there replaces that entry. -/
def IndexLoops (heap : ListHeap) (seqs : Sequences) (list : Addr) (seq : List Addr)
    (entries : List Bss) (index : Int) (place : Nat) : Prop :=
  ∀ fuel, heap.num list < fuel →
    ∃ node, stepTo heap index fuel 0 list = some node ∧ heap.val node = entries[place]? ∧
      ∀ val, Represents (heap.setVal node val) seqs ∧
        Shows (heap.setVal node val) seq (entries.set place val)

theorem Stored.indexLoops (stored : Stored heap seqs list seq entries) {place : Nat}
    (inside : place < entries.length) (few : entries.length < 2 ^ 31) :
    IndexLoops heap seqs list seq entries place place := by
  intro fuel enough
  have size : toSize (place : Int) = place := toSize_natCast (by omega)
  obtain ⟨front, node, back, rfl, length, found⟩ := stored.split (size.symm ▸ inside)
  rw [size] at length found
  rw [stored.num] at enough
  have apart := (stored.represents.ring _ _ stored.found).once
  refine ⟨node, ?_, ?_, fun val => ⟨?_, ?_⟩⟩
  · rw [stepTo_findEntry (by omega) (by omega), found]
  · rw [← length, stored.shows.getElem?]
  · exact stored.represents.relive rfl rfl rfl fun _ _ alive => alive
  · rw [← length]
    exact stored.shows.setVal apart val

/-! ### The index and the range -/

/-- The range from an index to itself. -/
theorem slice_self {Item : Type} (seq : List Item) (index : Int) :
    slice seq index index =
      if normalize seq.length index < 0 then []
      else seq[(normalize seq.length index).toNat]?.toList := by
  simp only [slice]
  by_cases negative : normalize seq.length index < 0
  · rw [if_pos (by omega), if_pos negative]
  · rw [if_neg negative, max_eq_right (by omega)]
    split
    · rename_i empty
      have beyond : seq.length ≤ (normalize seq.length index).toNat := by omega
      rw [List.getElem?_eq_none beyond]
      rfl
    · rename_i range
      have one : (min ((seq.length : Int) - 1) (normalize seq.length index) -
          normalize seq.length index + 1).toNat = 1 := by omega
      rw [one, List.take_one, List.head?_drop]

/-- An index has a place exactly if the range from it to itself is not empty. -/
theorem listIndex_cases {index : Int} (inRange : IsInt64 index) (small : entries.length < 2 ^ 63) :
    (listIndex entries index = none ∧ slice entries index index = []) ∨
      ∃ place entry, listIndex entries index = some place ∧
        normalize entries.length index = (place : Nat) ∧ entries[place]? = some entry ∧
        slice entries index index = [entry] := by
  have below := normalize_lt inRange small
  rw [listIndex, fromEnd_eq inRange small, slice_self]
  by_cases negative : normalize entries.length index < 0
  · rw [if_pos (Or.inr negative), if_pos negative]
    exact Or.inl ⟨rfl, rfl⟩
  · have size : toSize (normalize entries.length index) =
        (normalize entries.length index).toNat := toSize_of_nonneg (by omega) (by omega)
    rw [size, if_neg negative]
    cases found : entries[(normalize entries.length index).toNat]? with
    | none => exact Or.inl ⟨if_pos (Or.inl (List.getElem?_eq_none_iff.mp found)), rfl⟩
    | some entry =>
      obtain ⟨inside, -⟩ := List.getElem?_eq_some_iff.mp found
      exact Or.inr ⟨_, entry, if_neg (by omega), (Int.toNat_of_nonneg (by omega)).symm, found, rfl⟩

/-! ### The commands -/

variable {dict : Dict Obj} {key index : Bss} {i : Int}

theorem stringReply_ne_nilReply (dict dict' : Dict Obj) (s : Bytes) (len : Nat) :
    stringReply dict s len ≠ nilReply dict' := by
  intro same
  have nil : SaysNil (stringReply dict s len) (Shared.holding []) := by
    rw [same]
    exact ⟨_, rfl, rfl, rfl⟩
  exact stringReply_not_nil dict s len (Shared.holding []) nil

/-- An index without a place. -/
theorem index_outside (val : Bss) (answer : dictLookUp dict key = some (.list entries))
    (number : bss2int index = (i, 0)) (outside : listIndex entries i = none) :
    lindexCommand dict [key, index] = nilReply dict ∧
      lsetCommand dict [key, index, val] = nilReply dict := by
  constructor
  · simp only [lindexCommand, number, answer, outside, ne_eq, not_true_eq_false, if_false,
      Option.bind_none]
  · simp only [lsetCommand, number, answer, outside, ne_eq, not_true_eq_false, if_false]

theorem lindex_inside {place : Nat} {entry : Bss}
    (answer : dictLookUp dict key = some (.list entries)) (number : bss2int index = (i, 0))
    (inside : listIndex entries i = some place) (found : entries[place]? = some entry) :
    lindexCommand dict [key, index] = stringReply dict entry.str entry.len := by
  simp only [lindexCommand, number, answer, inside, ne_eq, not_true_eq_false, if_false,
    Option.bind_some, found]

/-- The key space with another string at a place of a list. -/
def withElement (dict : Dict Obj) (key val : Bss) (entries : List Bss) (place : Nat) : Dict Obj :=
  dictSetVal dict key (.list (entries.set place val))

theorem lset_inside (val : Bss) {place : Nat} (answer : dictLookUp dict key = some (.list entries))
    (number : bss2int index = (i, 0)) (inside : listIndex entries i = some place) :
    lsetCommand dict [key, index, val] =
      stringReply (withElement dict key val entries place) val.str val.len := by
  simp only [lsetCommand, number, answer, inside, ne_eq, not_true_eq_false, if_false, withElement]

/-- An index keeps its place when a string of the list is replaced. -/
theorem listIndex_set (entries : List Bss) (place : Nat) (val : Bss) (i : Int) :
    listIndex (entries.set place val) i = listIndex entries i := by
  simp only [listIndex, List.length_set]

/-- Only the element at an index is another one: it is `val`. -/
structure SetsElement (dict dict' : Dict Obj) (key val : Bss) (entries : List Bss) (i : Int) :
    Prop where
  element : ∀ index, bss2int index = (i, 0) →
    lindexCommand dict' [key, index] = stringReply dict' val.str val.len
  list : ∃ entries', dictLookUp dict' key = some (.list entries') ∧
    entries'.length = entries.length ∧
    ∀ place : Nat, (place : Int) ≠ normalize entries.length i → entries'[place]? = entries[place]?
  others : ∀ other : Bss, other.Short → other.content ≠ key.content →
    dictLookUp dict' other = dictLookUp dict other

theorem setsElement (val : Bss) (placed : dict.Placed) (short : key.Short) {place : Nat}
    (answer : dictLookUp dict key = some (.list entries))
    (inside : listIndex entries i = some place) (same : normalize entries.length i = place)
    (bound : place < entries.length) :
    SetsElement dict (withElement dict key val entries place) key val entries i := by
  have stored : dictLookUp (withElement dict key val entries place) key =
      some (.list (entries.set place val)) := lookUp_dictSetVal_self placed.sized answer _
  refine ⟨fun index number => ?_, ⟨_, stored, List.length_set, fun other different => ?_⟩,
    fun other otherShort different => ?_⟩
  · rw [← listIndex_set entries place val i] at inside
    exact lindex_inside stored number inside (List.getElem?_set_self bound)
  · rw [same] at different
    exact List.getElem?_set_ne fun equal => different (congrArg Nat.cast equal.symm)
  · exact lookUp_dictSetVal_of_ne placed short otherShort _ different

/-- `LINDEX` replies the only element of the range from the index to itself, or a nil if the range
is empty; `LSET` replies a nil and does nothing exactly if `LINDEX` replies a nil, and replaces the
element otherwise. The loops of both over the list in memory come to that element. -/
theorem index_agrees (env : Env) (dict : Dict Obj) (key index val : Bss) (entries : List Bss)
    (i : Int) (placed : dict.Placed) (short : key.Short)
    (answer : dictLookUp dict key = some (.list entries)) (few : entries.length < 2 ^ 31)
    (number : bss2int index = (i, 0)) :
    Passes env dict (lrangeCommand env dict [key, index, index]) (slice entries i i) ∧
    (lindexCommand dict [key, index] = nilReply dict ↔ slice entries i i = []) ∧
    (slice entries i i ≠ [] → ∃ entry, slice entries i i = [entry] ∧
      lindexCommand dict [key, index] = stringReply dict entry.str entry.len) ∧
    (lsetCommand dict [key, index, val] = nilReply dict ↔
      lindexCommand dict [key, index] = nilReply dict) ∧
    (lindexCommand dict [key, index] ≠ nilReply dict →
      ∃ dict', lsetCommand dict [key, index, val] = stringReply dict' val.str val.len ∧
        SetsElement dict dict' key val entries i) ∧
    (slice entries i i ≠ [] → ∀ heap seqs list seq, Stored heap seqs list seq entries →
      IndexLoops heap seqs list seq entries (fromEnd i (heap.num list))
        (normalize entries.length i).toNat) := by
  have inRange := isInt64_of_number number
  have small : entries.length < 2 ^ 63 := by omega
  refine ⟨lrange_passes number number small answer, ?_⟩
  obtain ⟨outside, empty⟩ | ⟨place, entry, inside, same, found, range⟩ :=
    @listIndex_cases entries i inRange small
  · obtain ⟨lindex, lset⟩ := index_outside val answer number outside
    rw [lindex, lset, empty]
    exact ⟨iff_of_true rfl rfl, fun wrong => absurd rfl wrong, iff_of_true rfl rfl,
      fun wrong => absurd rfl wrong, fun wrong => absurd rfl wrong⟩
  · obtain ⟨bound, -⟩ := List.getElem?_eq_some_iff.mp found
    have lindex := lindex_inside answer number inside found
    have lset := lset_inside val answer number inside
    have notNil := stringReply_ne_nilReply dict dict entry.str entry.len
    have setNotNil := stringReply_ne_nilReply (withElement dict key val entries place) dict
      val.str val.len
    rw [lindex, lset, range]
    refine ⟨iff_of_false notNil (List.cons_ne_nil _ _), fun _ => ⟨entry, rfl, rfl⟩,
      iff_of_false setNotNil notNil,
      fun _ => ⟨_, rfl, setsElement val placed short answer inside same bound⟩,
      fun _ heap seqs list seq stored => ?_⟩
    rw [stored.num, fromEnd_eq inRange small, same, Int.toNat_natCast]
    exact stored.indexLoops bound few

/-- `LINDEX b -2`, `LSET b -2 w` and `LRANGE b -2 -2` after `RPUSH b x y z`. -/
theorem index_agrees_three :
    Passes Env.plain threeKey (lrangeCommand Env.plain threeKey
        [textArg 5 "b", textArg 6 "-2", textArg 6 "-2"]) [textArg 3 "y"] ∧
      ∃ dict', lsetCommand threeKey [textArg 5 "b", textArg 6 "-2", textArg 7 "w"] =
          stringReply dict' (textArg 7 "w").str 1 ∧
        lindexCommand dict' [textArg 5 "b", textArg 6 "-2"] =
          stringReply dict' (textArg 7 "w").str 1 ∧
        ∃ entries, dictLookUp dict' (textArg 5 "b") = some (.list entries) ∧
          entries.length = 3 ∧ ∀ place : Nat, (place : Int) ≠ 1 →
            entries[place]? = threeEntries[place]? := by
  obtain ⟨range, empty, one, -, sets, -⟩ := index_agrees Env.plain threeKey (textArg 5 "b")
    (textArg 6 "-2") (textArg 7 "w") threeEntries (-2) threeKey_placed
    (textArg_arg _ (by decide)).short rfl (by decide) rfl
  obtain ⟨dict', ran, set⟩ := sets (empty.not.mpr (by decide))
  exact ⟨range, dict', ran, set.element (textArg 6 "-2") rfl, set.list⟩

end PseudoRedis
