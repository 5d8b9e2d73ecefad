/-
This file proves that `dict_destroy` releases what is the dictionary's. The iteration keeps its
promise that entries may go away under it: a link is read before its entry is released, and
a key or value is released with the one entry that points to it, so that none is released
twice and all that is left afterwards is the caller's.
-/

import PseudoRedis.DictRemoval

namespace PseudoRedis

open Chains

variable {V : Type} {heap heap' : DictHeap V} {placed : Placement V}
  {spot : Addr × DictEntry V}

/-! ### Destruction -/

/-- The memory in which some entries have been released, with their keys and values. -/
structure DictHeap.Emptied (heap heap' : DictHeap V) (gone : List (Addr × DictEntry V)) : Prop where
  table : heap'.hashTbl = heap.hashTbl
  entries : ∀ addr, addr ∈ gone.map Prod.fst → heap'.entry addr = none
  otherEntries : ∀ addr, addr ∉ gone.map Prod.fst → heap'.entry addr = heap.entry addr
  keys : ∀ spot ∈ gone, ∀ key val, heap.fields spot.1 = some (key, val) → heap'.key key = none
  otherKeys : ∀ key, (∀ spot ∈ gone, ∀ val, heap.fields spot.1 ≠ some (key, val)) →
    heap'.key key = heap.key key
  vals : ∀ spot ∈ gone, ∀ key val, heap.fields spot.1 = some (key, val) → val ≠ setValPtr →
    heap'.obj val = none
  otherVals : ∀ val,
    (∀ spot ∈ gone, ∀ key, heap.fields spot.1 = some (key, val) → val = setValPtr) →
      heap'.obj val = heap.obj val

theorem DictHeap.Emptied.start (heap : DictHeap V) : heap.Emptied heap [] :=
  ⟨rfl, fun _ none => absurd none List.not_mem_nil, fun _ _ => rfl,
    fun _ none => absurd none List.not_mem_nil, fun _ _ => rfl,
    fun _ none => absurd none List.not_mem_nil, fun _ _ => rfl⟩

variable [DictVal V]

/-- The next entry is still there, and its release empties the memory of it as well. -/
theorem DictHeap.Emptied.step {gone : List (Addr × DictEntry V)} (emptied : heap.Emptied heap' gone)
    (laid : heap.Laid placed) {index : Nat} (member : spot ∈ placed index)
    (fresh : spot.1 ∉ gone.map Prod.fst) (old : ∀ other ∈ gone, ∃ home, other ∈ placed home)
    (prev : Option Addr) :
    heap'.Holds spot ∧ heap'.next spot.1 = heap.next spot.1 ∧
      ∃ heap'', heap'.dictDestroyEntry ⟨some spot.1, prev⟩ = .ok heap'' ∧
        heap.Emptied heap'' (gone ++ [spot]) := by
  obtain ⟨key, val, fields, -⟩ := laid.holds index spot member
  have entry := emptied.otherEntries spot.1 fresh
  have apart {other : Addr × DictEntry V} (inGone : other ∈ gone) : other.1 ≠ spot.1 :=
    fun same => fresh (List.mem_map.mpr ⟨other, inGone, same⟩)
  have otherKey : ∀ other ∈ gone, ∀ val', heap.fields other.1 ≠ some (key, val') := by
    intro other inGone val' theirs
    obtain ⟨home, inside⟩ := old other inGone
    exact apart inGone (congrArg Prod.fst (laid.lays.eq_of_key inside member theirs fields))
  have otherVal : ∀ other ∈ gone, ∀ key', heap.fields other.1 = some (key', val) →
      val = setValPtr := by
    intro other inGone key' theirs
    obtain ⟨home, inside⟩ := old other inGone
    by_contra plain
    exact apart inGone (laid.owned home index other inside spot member key' key val theirs fields
      plain)
  have holds : heap'.Holds spot := by
    refine (laid.holds index spot member).same entry (fun key' val' own => ?_)
      fun key' val' own _ => ?_
    · rw [fields] at own
      cases own
      exact emptied.otherKeys key otherKey
    · rw [fields] at own
      cases own
      exact emptied.otherVals val otherVal
  have fields' : heap'.fields spot.1 = some (key, val) := by
    rw [DictHeap.fields, entry, ← DictHeap.fields, fields]
  refine ⟨holds, by rw [DictHeap.next, entry, DictHeap.next], _,
    dictDestroyEntry_eq holds prev fields', emptied.table, ?_, ?_, ?_, ?_, ?_, ?_⟩
  · intro addr inside
    rw [List.map_append, List.mem_append] at inside
    rcases inside with inGone | here
    · exact discard_none (emptied.entries addr inGone)
    · rw [List.mem_singleton.mp here]
      exact Function.update_self _ _ _
  · intro addr outside
    rw [List.map_append, List.mem_append, not_or] at outside
    refine (Function.update_of_ne (fun same => outside.2 ?_) _ _).trans
      (emptied.otherEntries addr outside.1)
    exact List.mem_singleton.mpr same
  · intro other inside key' val' own
    rcases List.mem_append.mp inside with inGone | here
    · exact discard_none (emptied.keys other inGone key' val' own)
    · rw [List.mem_singleton.mp here, fields] at own
      cases own
      exact Function.update_self _ _ _
  · intro key' others
    have different : key' ≠ key := by
      rintro rfl
      exact others spot (List.mem_append_right _ List.mem_cons_self) val fields
    exact (Function.update_of_ne different _ _).trans
      (emptied.otherKeys key' fun other inGone => others other (List.mem_append_left _ inGone))
  · intro other inside key' val' own plain
    rcases List.mem_append.mp inside with inGone | here
    · rw [DictHeap.released]
      split
      · exact emptied.vals other inGone key' val' own plain
      · exact discard_none (emptied.vals other inGone key' val' own plain)
    · rw [List.mem_singleton.mp here, fields] at own
      cases own
      rw [DictHeap.released, if_neg plain]
      exact Function.update_self _ _ _
  · intro val' others
    have kept := emptied.otherVals val' fun other inGone =>
      others other (List.mem_append_left _ inGone)
    rw [DictHeap.released]
    split
    · exact kept
    · rename_i plain
      refine (Function.update_of_ne ?_ _ _).trans kept
      rintro rfl
      exact plain (others spot (List.mem_append_right _ List.mem_cons_self) key fields)

/-- The inner loop of the destruction empties the rest of a chain. -/
theorem DictHeap.Laid.destroyChain (laid : heap.Laid placed)
    (done todo gone : List (Addr × DictEntry V)) {index fuel : Nat} {heap' : DictHeap V}
    (enough : todo.length < fuel) (cut : placed index = done ++ todo)
    (emptied : heap.Emptied heap' gone) (old : ∀ other ∈ gone, ∃ home, other ∈ placed home)
    (once : ((gone ++ todo).map Prod.fst).Nodup) :
    ∃ heap'', DictHeap.iterChain DictHeap.destroyEntryCallback fuel ⟨headAddr todo, none⟩ heap' () =
        .ok (heap'', (), 0) ∧
      heap.Emptied heap'' (gone ++ todo) := by
  induction todo generalizing done gone fuel heap' with
  | nil =>
    rw [List.append_nil]
    exact ⟨heap', by rw [headAddr, List.head?_nil, Option.map_none, DictHeap.iterChain], emptied⟩
  | cons spot todo inductionHypothesis =>
    obtain ⟨fuel, rfl⟩ : ∃ less, fuel = less + 1 :=
      Nat.exists_eq_add_one_of_ne_zero (Nat.ne_of_gt (Nat.zero_lt_of_lt enough))
    have member : spot ∈ placed index := cut ▸ List.mem_append_right _ List.mem_cons_self
    have fresh : spot.1 ∉ gone.map Prod.fst := by
      intro again
      rw [List.map_append] at once
      exact List.disjoint_of_nodup_append once again List.mem_cons_self
    obtain ⟨holds, next, heap'', destroyed, emptied'⟩ :=
      emptied.step laid member fresh old (none : Option Addr)
    have called : DictHeap.destroyEntryCallback ⟨some spot.1, none⟩ heap' () =
        .ok (heap'', (), 0) := by
      simp only [DictHeap.destroyEntryCallback, destroyed, bind, Except.bind, pure, Except.pure]
    have behind : heap'.next spot.1 = headAddr todo := next.trans (laid.lays.next_eq cut)
    have old' : ∀ other ∈ gone ++ [spot], ∃ home, other ∈ placed home := by
      intro other inside
      rcases List.mem_append.mp inside with inGone | here
      · exact old other inGone
      · exact ⟨index, List.mem_singleton.mp here ▸ member⟩
    rw [← List.singleton_append, ← List.append_assoc] at cut once ⊢
    obtain ⟨last, ran, empty⟩ := inductionHypothesis (done ++ [spot]) (gone ++ [spot])
      (Nat.lt_of_succ_lt_succ enough) cut emptied' old' once
    refine ⟨last, ?_, empty⟩
    rw [headAddr, List.singleton_append, List.head?_cons, Option.map_some,
      iterChain_round holds called, if_neg (not_not.mpr rfl), behind]
    exact ran

/-- The outer loop empties one slot after the other. -/
theorem DictHeap.Laid.destroySlots (laid : heap.Laid placed) (left : Nat) {index : Nat}
    (gone : List (Addr × DictEntry V)) {heap' : DictHeap V} (emptied : heap.Emptied heap' gone)
    (old : ∀ other ∈ gone, ∃ home, other ∈ placed home)
    (once : ((gone ++ Slots.piece placed index (index + left)).map Prod.fst).Nodup) :
    ∃ heap'', DictHeap.iterSlots DictHeap.destroyEntryCallback left index heap' () =
        .ok (heap'', (), 0) ∧
      heap.Emptied heap'' (gone ++ Slots.piece placed index (index + left)) := by
  induction left generalizing index gone heap' with
  | zero =>
    rw [Nat.add_zero, Slots.piece_self, List.append_nil]
    exact ⟨heap', rfl, emptied⟩
  | succ left inductionHypothesis =>
    have split : Slots.piece placed index (index + (left + 1)) =
        placed index ++ Slots.piece placed (index + 1) (index + 1 + left) := by
      rw [Slots.piece_cons placed (Nat.lt_add_of_pos_right (Nat.succ_pos left)), Nat.add_right_comm,
        Nat.add_assoc]
    rw [split, ← List.append_assoc] at once ⊢
    have head : heap'.hashTbl index = headAddr (placed index) := by
      rw [emptied.table, (laid.chains index).start_eq, List.head?_map]
      rfl
    have first : ((gone ++ placed index).map Prod.fst).Nodup := by
      rw [List.map_append] at once
      exact once.of_append_left
    obtain ⟨middle, ran, emptied'⟩ := laid.destroyChain [] (placed index) gone
      (laid.lays.length_lt index) rfl emptied old first
    have old' : ∀ other ∈ gone ++ placed index, ∃ home, other ∈ placed home := by
      intro other inside
      rcases List.mem_append.mp inside with inGone | here
      · exact old other inGone
      · exact ⟨index, here⟩
    obtain ⟨last, rest, empty⟩ := inductionHypothesis (gone ++ placed index) emptied' old' once
    refine ⟨last, ?_, empty⟩
    simp only [DictHeap.iterSlots, head, ran, bind, Except.bind]
    exact rest

/-- The destruction of a dictionary releases its entries, keys and values, and nothing else. -/
theorem DictHeap.Laid.dictDestroy (laid : heap.Laid placed) :
    ∃ left, heap.dictDestroy = .ok left ∧
      (∀ addr, heap.Linked addr → left.entry addr = none) ∧
      (∀ addr, ¬ heap.Linked addr → left.entry addr = heap.entry addr) ∧
      (∀ key, heap.OwnsKey key → left.key key = none) ∧
      (∀ key, ¬ heap.OwnsKey key → left.key key = heap.key key) ∧
      (∀ val, heap.OwnsVal val → left.obj val = none) ∧
      ∀ val, ¬ heap.OwnsVal val → left.obj val = heap.obj val := by
  have nodup := laid.lays.nodup
  rw [Slots.contents_eq_piece] at nodup
  obtain ⟨heap', ran, emptied⟩ := laid.destroySlots (pwr2size heap.power).toNat [] (.start heap)
    (fun _ none => absurd none List.not_mem_nil) (by rwa [List.nil_append, Nat.zero_add])
  rw [List.nil_append, Nat.zero_add, ← Slots.contents_eq_piece] at emptied
  have inside {index : Nat} {spot : Addr × DictEntry V} (member : spot ∈ placed index) :
      spot ∈ Slots.contents placed (pwr2size heap.power).toNat := laid.lays.mem_contents member
  have home {spot : Addr × DictEntry V}
      (listed : spot ∈ Slots.contents placed (pwr2size heap.power).toNat) :
      ∃ index, spot ∈ placed index :=
    (Slots.mem_contents.mp listed).imp fun _ found => found.2
  refine ⟨heap'.memory, ?_, fun addr linked => ?_, fun addr apart => ?_, fun key owns => ?_,
    fun key apart => ?_, fun val owns => ?_, fun val apart => ?_⟩
  · have iterated : heap.dictIter DictHeap.destroyEntryCallback () = .ok (heap', (), 0) := ran
    simp only [DictHeap.dictDestroy, iterated, bind, Except.bind, pure, Except.pure]
  · obtain ⟨index, spot, member, rfl⟩ := laid.linked_iff.mp linked
    exact emptied.entries spot.1 (List.mem_map_of_mem (inside member))
  · refine emptied.otherEntries addr fun listed => apart ?_
    obtain ⟨spot, member, rfl⟩ := List.mem_map.mp listed
    obtain ⟨index, placedAt⟩ := home member
    exact laid.linked_iff.mpr ⟨index, spot, placedAt, rfl⟩
  · obtain ⟨index, spot, member, val, fields⟩ := laid.ownsKey_iff.mp owns
    exact emptied.keys spot (inside member) key val fields
  · refine emptied.otherKeys key fun spot member val fields => apart ?_
    obtain ⟨index, placedAt⟩ := home member
    exact laid.ownsKey_iff.mpr ⟨index, spot, placedAt, val, fields⟩
  · obtain ⟨plain, index, spot, member, key, fields⟩ := laid.ownsVal_iff.mp owns
    exact emptied.vals spot (inside member) key val fields plain
  · refine emptied.otherVals val fun spot member key fields => ?_
    by_contra plain
    obtain ⟨index, placedAt⟩ := home member
    exact apart (laid.ownsVal_iff.mpr ⟨plain, index, spot, placedAt, key, fields⟩)

end PseudoRedis
