/-
This file proves of the operations of `list.c` that none of them reads, assigns to or
releases what is not allocated, as long as memory is what the lists hold and a few entries
that are in no list. Each operation leaves such a memory, and says which entries are in no
list then; so whoever ends with none has lost no entry.
-/

import PseudoRedis.ListCode
import Mathlib.Data.Set.Insert

namespace PseudoRedis

open Rings Faulting

variable {heap heap' : ListHeap} {seqs : Sequences} {list node target entry : Addr}
  {seq seq' front back done todo : List Addr} {loose loose' : Set Addr} {side : End}

/-! ### Memory that holds nothing but the lists -/

/-- The node is a list or an entry of one. -/
def Lies (seqs : Sequences) (node : Addr) : Prop :=
  ∃ list seq, seqs list = some seq ∧ node ∈ list :: seq

/-- The memory holds the lists and some entries that are in none of them, and nothing else. -/
structure Whole (heap : ListHeap) (seqs : Sequences) (loose : Set Addr) : Prop where
  represents : Represents heap seqs
  free : ∀ node ∈ loose, Free heap seqs node
  full : ∀ node, heap.live node = true → Lies seqs node ∨ node ∈ loose

theorem Whole.live (whole : Whole heap seqs loose) (found : seqs list = some seq)
    (member : node ∈ list :: seq) : heap.live node = true :=
  whole.represents.live list seq found node member

theorem Whole.live_iff (whole : Whole heap seqs loose) :
    heap.live node = true ↔ Lies seqs node ∨ node ∈ loose := by
  refine ⟨whole.full node, ?_⟩
  rintro (⟨list, seq, found, member⟩ | outside)
  · exact whole.live found member
  · exact (whole.free node outside).live

/-- What belongs to a table in which one list has another sequence. -/
theorem lies_update {new : Option (List Addr)} :
    Lies (Function.update seqs list new) node ↔ (∃ seq, new = some seq ∧ node ∈ list :: seq) ∨
      ∃ other seq, other ≠ list ∧ seqs other = some seq ∧ node ∈ other :: seq := by
  constructor
  · rintro ⟨other, seq, found, member⟩
    by_cases same : other = list
    · rw [same, Function.update_self] at found
      exact Or.inl ⟨seq, found, same ▸ member⟩
    · rw [Function.update_of_ne same] at found
      exact Or.inr ⟨other, seq, same, found, member⟩
  · rintro (⟨seq, rfl, member⟩ | ⟨other, seq, different, found, member⟩)
    · exact ⟨list, seq, Function.update_self _ _ _, member⟩
    · exact ⟨other, seq, (Function.update_of_ne different _ _).trans found, member⟩

/-- A node of one list belongs to no other. -/
theorem Whole.apart (whole : Whole heap seqs loose) (found : seqs list = some seq)
    (member : node ∈ list :: seq) :
    ¬ ∃ other seq, other ≠ list ∧ seqs other = some seq ∧ node ∈ other :: seq := by
  rintro ⟨other, others, different, there, inside⟩
  exact whole.represents.apart other list others seq there found different inside member

/-- One list gets another sequence, or goes; what was allocated and still is has a place. -/
theorem Whole.edit (whole : Whole heap seqs loose) (found : seqs list = some seq)
    {new : Option (List Addr)} (represents : Represents heap' (Function.update seqs list new))
    (shrinks : ∀ node, heap'.live node = true → heap.live node = true)
    (kept : ∀ node, node ∈ list :: seq ∨ node ∈ loose → heap'.live node = true →
      (∃ seq', new = some seq' ∧ node ∈ list :: seq') ∨ node ∈ loose')
    (free : ∀ node ∈ loose', heap'.live node = true ∧
      (∀ seq', new = some seq' → node ∉ list :: seq') ∧ (node ∈ list :: seq ∨ node ∈ loose)) :
    Whole heap' (Function.update seqs list new) loose' := by
  refine ⟨represents, fun node outside => ⟨(free node outside).1, ?_⟩, fun node live => ?_⟩
  · obtain ⟨-, notNew, old⟩ := free node outside
    intro other seq' there inside
    rcases lies_update.mp ⟨other, seq', there, inside⟩ with ⟨own, same, mine⟩ | elsewhere
    · exact notNew own same mine
    · rcases old with mine | before
      · exact whole.apart found mine elsewhere
      · obtain ⟨third, others, -, present, member⟩ := elsewhere
        exact (whole.free node before).loose third others present member
  · rcases whole.full node (shrinks node live) with ⟨other, others, there, inside⟩ | outside
    · by_cases same : other = list
      · subst same
        rw [found, Option.some.injEq] at there
        rcases kept node (Or.inl (there ▸ inside)) live with own | outside
        · exact Or.inl (lies_update.mpr (Or.inl own))
        · exact Or.inr outside
      · exact Or.inl (lies_update.mpr (Or.inr ⟨other, others, same, there, inside⟩))
    · rcases kept node (Or.inr outside) live with own | outside
      · exact Or.inl (lies_update.mpr (Or.inl own))
      · exact Or.inr outside

/-! ### Accesses -/

namespace ListCode

theorem read_ends {Value : Type} (live : heap.live node = true) (field : ListHeap → Value) :
    Ends (read node field) heap (field heap) heap :=
  if_pos live

theorem assign_ends (live : heap.live node = true) (edit : ListHeap → ListHeap) :
    Ends (assign node edit) heap () (edit heap) :=
  if_pos live

theorem next_ends (live : heap.live node = true) : Ends (next node) heap (heap.next node) heap :=
  read_ends live _

theorem prev_ends (live : heap.live node = true) : Ends (prev node) heap (heap.prev node) heap :=
  read_ends live _

theorem num_ends (live : heap.live list = true) : Ends (num list) heap (heap.num list) heap :=
  read_ends live _

theorem count_ends (live : heap.live list = true) (change : Int) :
    Ends (count list change) heap () (heap.count list change) :=
  assign_ends live _

theorem walk_ends (side : End) (live : heap.live node = true) :
    Ends (walk side node) heap (heap.walk side node) heap := by
  cases side with
  | left => exact next_ends live
  | right => exact prev_ends live

theorem str_ends (live : heap.live entry = true) {val : Bss} (held : heap.val entry = some val) :
    Ends (str entry) heap val heap := by
  refine (read_ends live _).bind ?_
  simp only [held]
  exact Ends.pure heap val

theorem linkAfter_ends {place : Addr} (placeLive : heap.live place = true)
    (nextLive : heap.live (heap.next place) = true) (targetLive : heap.live target = true) :
    Ends (linkAfter place target) heap () (PseudoRedis.linkAfter heap place target) := by
  refine Ends.bind (next_ends placeLive) <| Ends.bind (assign_ends ?_ _) <|
    Ends.bind (next_ends placeLive) <| Ends.bind (assign_ends ?_ _) <|
      Ends.bind (assign_ends ?_ _) <| assign_ends ?_ _
  exacts [nextLive, targetLive, placeLive, targetLive]

theorem linkBefore_ends {place : Addr} (placeLive : heap.live place = true)
    (prevLive : heap.live (heap.prev place) = true) (targetLive : heap.live target = true) :
    Ends (linkBefore place target) heap () (PseudoRedis.linkBefore heap place target) := by
  refine Ends.bind (prev_ends placeLive) <| Ends.bind (assign_ends ?_ _) <|
    Ends.bind (prev_ends placeLive) <| Ends.bind (assign_ends ?_ _) <|
      Ends.bind (assign_ends ?_ _) <| assign_ends ?_ _
  exacts [prevLive, targetLive, placeLive, targetLive]

/-- The second assignment goes where `next` led before the first one. -/
theorem unlink_ends (live : heap.live entry = true) (nextLive : heap.live (heap.next entry) = true)
    (prevLive : heap.live (heap.prev entry) = true) :
    Ends (unlink entry) heap () (PseudoRedis.unlink heap entry) := by
  have kept : (heap.setNext (heap.prev entry) (heap.next entry)).next entry = heap.next entry := by
    by_cases same : entry = heap.prev entry
    · rw [ListHeap.setNext, ← same]
      exact Function.update_self _ _ _
    · exact Function.update_of_ne same _ _
  refine Ends.bind (prev_ends live) <| Ends.bind (next_ends live) <|
    Ends.bind (assign_ends prevLive _) <| Ends.bind (next_ends live) <|
      Ends.bind (prev_ends live) <| assign_ends ?_ _
  rw [kept]
  exact nextLive

end ListCode

/-! ### Linking and unlinking -/

/-- The nodes before and after a place of a list. -/
theorem Whole.ends (whole : Whole heap seqs loose) (found : seqs list = some (front ++ back)) :
    heap.live (before list front) = true ∧ heap.live (after list back) = true ∧
      heap.next (before list front) = after list back ∧
        heap.prev (after list back) = before list front := by
  have ring := whole.represents.ring _ _ found
  exact ⟨whole.live found (before_mem_append list front back),
    whole.live found (after_mem_append list front back), ring.next_before, ring.prev_after⟩

/-- A loose entry has come into a list. -/
theorem Whole.entered (whole : Whole heap seqs loose) (found : seqs list = some (front ++ back))
    (represents : Represents heap' (Function.update seqs list (some (front ++ target :: back))))
    (live : heap'.live = heap.live) :
    Whole heap' (Function.update seqs list (some (front ++ target :: back)))
      (loose \ {target}) := by
  have perm : (list :: (front ++ target :: back)).Perm (target :: list :: (front ++ back)) :=
    (List.perm_middle.cons list).trans (List.Perm.swap _ _ _)
  refine whole.edit found represents (fun node alive => live ▸ alive) (fun node old _ => ?_)
    fun node left => ⟨?_, ?_, Or.inr left.1⟩
  · rcases old with mine | outside
    · exact Or.inl ⟨_, rfl, perm.mem_iff.mpr (List.mem_cons_of_mem _ mine)⟩
    · by_cases same : node = target
      · exact Or.inl ⟨_, rfl, same ▸ perm.mem_iff.mpr List.mem_cons_self⟩
      · exact Or.inr ⟨outside, same⟩
  · rw [live]
    exact (whole.free node left.1).live
  · rintro seq' same member
    cases same
    rcases List.mem_cons.mp (perm.mem_iff.mp member) with equal | mine
    · exact left.2 equal
    · exact (whole.free node left.1).loose list _ found mine

theorem Whole.linkAfter (whole : Whole heap seqs loose) (found : seqs list = some (front ++ back))
    (inside : target ∈ loose) :
    ∃ heap', Ends (do ListCode.linkAfter (before list front) target; ListCode.count list 1) heap ()
        heap' ∧
      Whole heap' (Function.update seqs list (some (front ++ target :: back))) (loose \ {target}) ∧
        heap'.val = heap.val ∧ heap'.live = heap.live := by
  obtain ⟨placeLive, nextLive, next, -⟩ := whole.ends found
  have free := whole.free target inside
  have linked := ListCode.linkAfter_ends placeLive (next ▸ nextLive) free.live
  refine ⟨_, linked.bind (ListCode.count_ends ?_ _),
    whole.entered found (whole.represents.linkedAfter found free) rfl, rfl, rfl⟩
  exact whole.live found List.mem_cons_self

theorem Whole.linkBefore (whole : Whole heap seqs loose) (found : seqs list = some (front ++ back))
    (inside : target ∈ loose) :
    ∃ heap', Ends (do ListCode.linkBefore (after list back) target; ListCode.count list 1) heap ()
        heap' ∧
      Whole heap' (Function.update seqs list (some (front ++ target :: back))) (loose \ {target}) ∧
        heap'.val = heap.val ∧ heap'.live = heap.live := by
  obtain ⟨prevLive, placeLive, -, prev⟩ := whole.ends found
  have free := whole.free target inside
  have linked := ListCode.linkBefore_ends placeLive (prev ▸ prevLive) free.live
  refine ⟨_, linked.bind (ListCode.count_ends ?_ _),
    whole.entered found (whole.represents.linkedBefore found free) rfl, rfl, rfl⟩
  exact whole.live found List.mem_cons_self

/-- The nodes around an entry of a list. -/
theorem Whole.around (whole : Whole heap seqs loose)
    (found : seqs list = some (front ++ node :: back)) :
    heap.live node = true ∧ heap.live (heap.next node) = true ∧
      heap.live (heap.prev node) = true ∧ heap.live list = true := by
  obtain ⟨next, prev⟩ := (whole.represents.ring _ _ found).neighbours
  have tail : seqs list = some ((front ++ [node]) ++ back) := by
    rw [found, List.append_assoc, List.singleton_append]
  rw [next, prev]
  exact ⟨whole.live found (List.mem_cons_of_mem _ (List.mem_append_right _ List.mem_cons_self)),
    (whole.ends tail).2.1, (whole.ends found).1, whole.live found List.mem_cons_self⟩

theorem Whole.rmNf (whole : Whole heap seqs loose)
    (found : seqs list = some (front ++ node :: back)) :
    ∃ heap', Ends (ListCode.rmNf list node) heap node heap' ∧
      Whole heap' (Function.update seqs list (some (front ++ back))) (insert node loose) ∧
        heap'.val = heap.val ∧ heap'.live = heap.live := by
  obtain ⟨live, nextLive, prevLive, listLive⟩ := whole.around found
  obtain ⟨represents, free⟩ := whole.represents.unlinked found
  have perm : (list :: (front ++ node :: back)).Perm (node :: list :: (front ++ back)) :=
    (List.perm_middle.cons list).trans (List.Perm.swap _ _ _)
  have unlinked := ListCode.unlink_ends live nextLive prevLive
  have counted : (PseudoRedis.unlink heap node).live list = true := listLive
  refine ⟨_, unlinked.bind (Ends.bind (ListCode.count_ends counted _) (Ends.pure _ node)), ?_, rfl,
    rfl⟩
  refine whole.edit found represents (fun _ alive => alive) (fun other old _ => ?_)
    fun other left => ⟨?_, ?_, ?_⟩
  · rcases old with mine | outside
    · rcases List.mem_cons.mp (perm.mem_iff.mp mine) with rfl | stays
      · exact Or.inr (Set.mem_insert _ _)
      · exact Or.inl ⟨_, rfl, stays⟩
    · exact Or.inr (Set.mem_insert_of_mem _ outside)
  · rcases left with rfl | outside
    · exact live
    · exact (whole.free other outside).live
  · rintro seq' same member
    cases same
    rcases left with rfl | outside
    · exact free.loose list _ (Function.update_self _ _ _) member
    · exact (whole.free other outside).loose list _ found
        (perm.mem_iff.mpr (List.mem_cons_of_mem _ member))
  · rcases left with rfl | outside
    · exact Or.inl (perm.mem_iff.mpr List.mem_cons_self)
    · exact Or.inr outside

/-! ### The operations -/

/-- An entry comes to an end of a list: to the place a walk from that end begins at. -/
theorem Whole.inserted (whole : Whole heap seqs loose) (found : seqs list = some seq)
    (inside : target ∈ loose) (side : End) :
    ∃ heap' seq', Ends (ListCode.insert side list target) heap () heap' ∧
      Whole heap' (Function.update seqs list (some seq')) (loose \ {target}) ∧
        oriented side seq' = target :: oriented side seq ∧ heap'.val = heap.val ∧
          heap'.live = heap.live := by
  cases side with
  | left =>
    obtain ⟨heap', ends, whole', same⟩ := @Whole.linkAfter _ _ _ _ [] _ _ whole found inside
    exact ⟨heap', _, ends, whole', rfl, same⟩
  | right =>
    rw [← List.append_nil seq] at found
    obtain ⟨heap', ends, whole', same⟩ := whole.linkBefore found inside
    refine ⟨heap', _, ends, whole', ?_, same⟩
    rw [oriented, List.reverse_concat, oriented]

theorem beside_eq {Item : Type} (after : Bool) (front : List Item) (place new : Item)
    (back : List Item) : beside after front place new back =
      front ++ if after then place :: new :: back else new :: place :: back := by
  cases after <;> exact List.append_assoc _ _ _

theorem Whole.insertedBeside (whole : Whole heap seqs loose)
    (found : seqs list = some (front ++ entry :: back)) (inside : target ∈ loose) (after : Bool) :
    ∃ heap', Ends (ListCode.insertBeside after list entry target) heap () heap' ∧
      Whole heap' (Function.update seqs list (some (beside after front entry target back)))
        (loose \ {target}) ∧ heap'.val = heap.val ∧ heap'.live = heap.live := by
  cases after with
  | true =>
    have place : before list (front ++ [entry]) = entry := List.getLastD_concat
    rw [← List.singleton_append, ← List.append_assoc] at found
    have linked := whole.linkAfter found inside
    rw [place] at linked
    obtain ⟨heap', ends, whole', same⟩ := linked
    refine ⟨heap', ends, ?_, same⟩
    rwa [beside_eq, if_pos rfl, ← List.singleton_append, ← List.append_assoc]
  | false =>
    obtain ⟨heap', ends, whole', same⟩ := whole.linkBefore found inside
    refine ⟨heap', ends, ?_, same⟩
    rwa [beside_eq, if_neg Bool.false_ne_true]

/-- Where a walk from an end cuts a sequence. -/
theorem oriented_split (split : oriented side seq = done ++ node :: todo) :
    ∃ front back, seq = front ++ node :: back ∧ oriented side (front ++ back) = done ++ todo := by
  cases side with
  | left => exact ⟨done, todo, split, rfl⟩
  | right =>
    refine ⟨todo.reverse, done.reverse, ?_, ?_⟩
    · rw [← List.reverse_reverse seq, show seq.reverse = done ++ node :: todo from split,
        List.reverse_append, List.reverse_cons, List.append_assoc, List.singleton_append]
    · rw [oriented, List.reverse_append, List.reverse_reverse, List.reverse_reverse]

/-- An entry is taken out in the middle of a walk. -/
theorem Whole.rmNfWalking (whole : Whole heap seqs loose) (found : seqs list = some seq)
    (split : oriented side seq = done ++ node :: todo) :
    ∃ heap' seq', Ends (ListCode.rmNf list node) heap node heap' ∧
      Whole heap' (Function.update seqs list (some seq')) (insert node loose) ∧
        oriented side seq' = done ++ todo ∧ heap'.val = heap.val ∧ heap'.live = heap.live := by
  obtain ⟨front, back, rfl, rest⟩ := oriented_split split
  obtain ⟨heap', ends, whole', same⟩ := whole.rmNf found
  exact ⟨heap', _, ends, whole', rest, same⟩

/-- An empty list is one a walk finds nothing in. -/
theorem oriented_eq_nil {Item : Type} {items : List Item} :
    oriented side items = [] ↔ items = [] := by
  cases side with
  | left => exact Iff.rfl
  | right => exact List.reverse_eq_nil_iff

/-- A list that is not empty has a first entry for a walk, which can be taken out. -/
theorem Whole.taken (whole : Whole heap seqs loose) (found : seqs list = some seq)
    (split : oriented side seq = node :: todo) :
    heap.next list ≠ list ∧ heap.walk side list = node ∧
      ∃ heap' seq', Ends (ListCode.rmNf list node) heap node heap' ∧
        Whole heap' (Function.update seqs list (some seq')) (insert node loose) ∧
          oriented side seq' = todo ∧ heap'.val = heap.val ∧ heap'.live = heap.live := by
  have ring := whole.represents.ring _ _ found
  refine ⟨?_, ?_, @Whole.rmNfWalking _ _ _ _ _ [] _ _ side whole found split⟩
  · rw [Ne, ring.next_eq_head_iff, ← @oriented_eq_nil side, split]
    exact List.cons_ne_nil _ _
  · rw [walk_head ring, split]
    rfl

/-! ### Allocating and releasing -/

/-- What is not allocated has no place yet. -/
theorem Whole.dead_iff (whole : Whole heap seqs loose) :
    heap.live node = false ↔ ¬ Lies seqs node ∧ node ∉ loose := by
  rw [← not_or, ← whole.live_iff, Bool.not_eq_true]

theorem Whole.create (whole : Whole heap seqs loose) (dead : heap.live list = false) :
    Whole (listCreate heap list) (Function.update seqs list (some [])) loose := by
  have outside := whole.dead_iff.mp dead
  have absent : seqs list = none := by
    by_contra present
    obtain ⟨seq, found⟩ := Option.ne_none_iff_exists'.mp present
    exact outside.1 ⟨list, seq, found, List.mem_cons_self⟩
  refine ⟨whole.represents.create dead, fun node inside => ?_, fun node live => ?_⟩
  · exact (whole.free node inside).created dead
  · by_cases same : node = list
    · exact Or.inl ⟨list, [], Function.update_self _ _ _, same ▸ List.mem_cons_self⟩
    · have old : heap.live node = true := (Function.update_of_ne same _ _).symm.trans live
      refine (whole.full node old).imp_left fun ⟨other, seq, found, member⟩ => ?_
      have different : other ≠ list := by
        rintro rfl
        rw [absent] at found
        cases found
      exact ⟨other, seq, (Function.update_of_ne different _ _).trans found, member⟩

theorem Whole.createEntry (whole : Whole heap seqs loose) (dead : heap.live entry = false)
    (val : Bss) : Whole (listCreateEntry heap entry val) seqs (insert entry loose) := by
  obtain ⟨represents, free⟩ := whole.represents.createEntry dead val
  refine ⟨represents, fun node inside => ?_, fun node live => ?_⟩
  · rcases inside with rfl | outside
    · exact free
    · have old := whole.free node outside
      have different : node ≠ entry := by
        rintro rfl
        exact Bool.false_ne_true (dead.symm.trans old.live)
      exact ⟨(Function.update_of_ne different _ _).trans old.live, old.loose⟩
  · by_cases same : node = entry
    · exact Or.inr (Or.inl same)
    · have old : heap.live node = true := (Function.update_of_ne same _ _).symm.trans live
      exact (whole.full node old).imp_right Or.inr

theorem Whole.destroyEntry (whole : Whole heap seqs loose) (inside : entry ∈ loose) :
    Ends (ListCode.destroyEntry entry) heap () (listDestroyEntry heap entry) ∧
      Whole (listDestroyEntry heap entry) seqs (loose \ {entry}) := by
  have free := whole.free entry inside
  refine ⟨Ends.bind (ListCode.read_ends free.live _) (ListCode.assign_ends free.live _), ?_, ?_, ?_⟩
  · refine whole.represents.relive rfl rfl rfl fun node belongs live => ?_
    have different : node ≠ entry := fun same => belongs (same ▸ free.loose)
    exact (Function.update_of_ne different _ _).trans live
  · intro node left
    have old := whole.free node left.1
    exact ⟨(Function.update_of_ne left.2 _ _).trans old.live, old.loose⟩
  · intro node live
    have different : node ≠ entry := by
      rintro rfl
      rw [show (listDestroyEntry heap node).live node = false from Function.update_self _ _ _]
        at live
      cases live
    have old : heap.live node = true := (Function.update_of_ne different _ _).symm.trans live
    exact (whole.full node old).imp_right fun outside => ⟨outside, different⟩

/-- `list_rm` releases the entry it takes out. -/
theorem Whole.rm (whole : Whole heap seqs loose) (found : seqs list = some seq)
    (split : oriented side seq = done ++ node :: todo) :
    ∃ heap' seq', Ends (ListCode.rm list node) heap () heap' ∧
      Whole heap' (Function.update seqs list (some seq')) loose ∧
        oriented side seq' = done ++ todo ∧ heap'.val = heap.val := by
  obtain ⟨front, back, rfl, rest⟩ := oriented_split split
  obtain ⟨live, nextLive, prevLive, listLive⟩ := whole.around found
  have ring := whole.represents.ring _ _ found
  have inside : node ∈ front ++ node :: back := List.mem_append_right _ List.mem_cons_self
  have apart : list ≠ node := (ring.ne_head inside).symm
  have unlinked := ListCode.unlink_ends live nextLive prevLive
  have stays : (listDestroyEntry (unlink heap node) node).live list = true :=
    (Function.update_of_ne apart _ _).trans listLive
  have perm : (list :: (front ++ node :: back)).Perm (node :: list :: (front ++ back)) :=
    (List.perm_middle.cons list).trans (List.Perm.swap _ _ _)
  have gone : (listRm heap list node).live node = false := Function.update_self _ _ _
  have others (other : Addr) (different : other ≠ node) :
      (listRm heap list node).live other = heap.live other := Function.update_of_ne different _ _
  refine ⟨listRm heap list node, _, unlinked.bind <| Ends.bind (Ends.bind
    (ListCode.read_ends ?_ _) <| ListCode.assign_ends ?_ _) <| ListCode.count_ends stays _, ?_,
      rest, rfl⟩
  · exact live
  · exact live
  · refine whole.edit found (whole.represents.removed found) (fun other alive => ?_)
      (fun other old alive => ?_) fun other left => ⟨?_, ?_, Or.inr left⟩
    · by_cases same : other = node
      · exact same ▸ live
      · exact (others other same).symm.trans alive
    · rcases old with mine | outside
      · rcases List.mem_cons.mp (perm.mem_iff.mp mine) with rfl | remains
        · exact absurd (gone.symm.trans alive) Bool.false_ne_true
        · exact Or.inl ⟨_, rfl, remains⟩
      · exact Or.inr outside
    · have different : other ≠ node := by
        rintro rfl
        exact (whole.free other left).loose list _ found (List.mem_cons_of_mem _ inside)
      exact (others other different).trans (whole.free other left).live
    · rintro seq' same member
      cases same
      exact (whole.free other left).loose list _ found
        (perm.mem_iff.mpr (List.mem_cons_of_mem _ member))

/-! ### Destruction -/

/-- The memory in which some nodes have been released. -/
def ListHeap.without (heap : ListHeap) (nodes : List Addr) : ListHeap :=
  { heap with live := fun node => if node ∈ nodes then false else heap.live node }

theorem without_keeps {nodes : List Addr} (outside : node ∉ nodes) :
    (heap.without nodes).live node = heap.live node :=
  if_neg outside

theorem without_live (heap : ListHeap) (nodes : List Addr) :
    (heap.without nodes).live node = true ↔ node ∉ nodes ∧ heap.live node = true := by
  show (if node ∈ nodes then false else heap.live node) = true ↔ _
  split
  · exact iff_of_false Bool.false_ne_true fun both => both.1 ‹_›
  · exact ⟨fun live => ⟨‹_›, live⟩, fun both => both.2⟩

theorem without_cons (heap : ListHeap) (node : Addr) (nodes : List Addr) :
    (listDestroyEntry heap node).without nodes = heap.without (node :: nodes) := by
  have live : ((listDestroyEntry heap node).without nodes).live =
      (heap.without (node :: nodes)).live := by
    funext other
    show (if other ∈ nodes then false else Function.update heap.live node false other) =
      if other ∈ node :: nodes then false else heap.live other
    by_cases inside : other ∈ nodes
    · rw [if_pos inside, if_pos (List.mem_cons_of_mem _ inside)]
    · by_cases same : other = node
      · simp [same]
      · simp [same, inside]
  exact congrArg (fun live => ({ heap with live } : ListHeap)) live

/-- The iteration reads `next` of an entry before the entry is released. By induction on the entries
before it. -/
theorem destroyFrom_ends {first : Addr} {fuel : Nat} (path : Path heap.next first todo list)
    (nodup : (list :: todo).Nodup) (live : ∀ node ∈ todo, heap.live node = true)
    (enough : todo.length ≤ fuel) :
    Ends (ListCode.iterFrom ListCode.destroyEntry list fuel (heap.next first)) heap ()
      (heap.without todo) := by
  induction todo generalizing heap first fuel with
  | nil =>
    rw [show heap.next first = list from path, ListCode.iterFrom.eq_def]
    have live : (heap.without []).live = heap.live := by
      funext node
      exact without_keeps List.not_mem_nil
    have nothing : heap.without [] = heap :=
      congrArg (fun live => ({ heap with live } : ListHeap)) live
    rw [nothing]
    exact Ends.ifPos rfl (Ends.pure _ _)
  | cons node rest inductionHypothesis =>
    obtain ⟨fewer, rfl⟩ : ∃ fewer, fuel = fewer + 1 :=
      ⟨fuel - 1, (Nat.sub_add_cancel (Nat.le_trans (Nat.le_add_left 1 _) enough)).symm⟩
    have alive := live node List.mem_cons_self
    have apart : node ≠ list := fun same => (List.nodup_cons.mp nodup).1 (same ▸ List.mem_cons_self)
    have later : ∀ other ∈ rest, other ≠ node := fun other member same =>
      (List.nodup_cons.mp (List.nodup_cons.mp nodup).2).1 (same ▸ member)
    have rests : (list :: rest).Nodup :=
      ((List.sublist_cons_self node rest).cons_cons list).nodup nodup
    have behind := @inductionHypothesis (listDestroyEntry heap node) node fewer path.2 rests
      (fun other member => (Function.update_of_ne (later other member) _ _).trans
        (live other (List.mem_cons_of_mem _ member))) (Nat.le_of_succ_le_succ enough)
    rw [show heap.next first = node from path.1, ListCode.iterFrom.eq_def]
    rw [without_cons] at behind
    exact Ends.ifNeg apart <| Ends.bind (ListCode.next_ends alive) <|
      Ends.bind (Ends.bind (ListCode.read_ends alive _) (ListCode.assign_ends alive _)) behind

/-- No list is longer than a loop can be. -/
theorem Whole.few (whole : Whole heap seqs loose) (found : seqs list = some seq) :
    seq.length < chainBound := by
  have most := (whole.represents.ring _ _ found).nodup.length_le_card
  rw [Fintype.card_fin, List.length_cons] at most
  exact Nat.lt_succ_of_lt most

/-- A list that is released with its entries. -/
theorem Represents.dropped (represents : Represents heap seqs) (found : seqs list = some seq) :
    Represents (heap.without (list :: seq)) (Function.update seqs list none) := by
  have other {name : Addr} {others : List Addr}
      (kept : Function.update seqs list none name = some others) :
      name ≠ list ∧ seqs name = some others := by
    by_cases same : name = list
    · rw [same, Function.update_self] at kept
      cases kept
    · rw [Function.update_of_ne same] at kept
      exact ⟨same, kept⟩
  refine ⟨fun name others kept => represents.ring name others (other kept).2,
    fun name others kept => represents.num name others (other kept).2,
    fun name others kept inner member => ?_,
    fun first second firstSeq secondSeq firstKept secondKept => represents.apart first second
      firstSeq secondSeq (other firstKept).2 (other secondKept).2⟩
  obtain ⟨apart, there⟩ := other kept
  rw [without_keeps fun mine => represents.apart name list others seq there found apart member mine]
  exact represents.live name others there inner member

/-- `list_destroy` releases the list and its entries, and nothing else. -/
theorem Whole.destroy (whole : Whole heap seqs loose) (found : seqs list = some seq) :
    ∃ heap', Ends (ListCode.destroy list) heap () heap' ∧
      Whole heap' (Function.update seqs list none) loose ∧ heap'.val = heap.val ∧
        (∀ node, heap'.live node = true → heap.live node = true) ∧ heap'.live list = false := by
  have ring := whole.represents.ring _ _ found
  have listLive := whole.live found List.mem_cons_self
  have iterated := destroyFrom_ends ring.forward ring.nodup
    (fun node member => whole.live found (List.mem_cons_of_mem _ member))
    (Nat.le_of_lt (whole.few found))
  have notInside : list ∉ seq := (List.nodup_cons.mp ring.nodup).1
  have freed : listFree (heap.without seq) list = heap.without (list :: seq) := by
    have live : (listFree (heap.without seq) list).live = (heap.without (list :: seq)).live := by
      funext node
      show Function.update (heap.without seq).live list false node =
        if node ∈ list :: seq then false else heap.live node
      by_cases same : node = list
      · simp [same]
      · simp [ListHeap.without, same]
    exact congrArg (fun live => ({ heap with live } : ListHeap)) live
  have shrinks (node : Addr) (alive : (heap.without (list :: seq)).live node = true) :
      heap.live node = true := ((without_live heap _).mp alive).2
  refine ⟨heap.without (list :: seq),
    Ends.bind (Ends.bind (ListCode.next_ends listLive) iterated) ?_,
    whole.edit found (whole.represents.dropped found) shrinks (fun node old alive => ?_)
      fun node left => ⟨?_, nofun, Or.inr left⟩, rfl, shrinks, if_pos List.mem_cons_self⟩
  · rw [← freed]
    refine ListCode.assign_ends ?_ _
    exact (without_live heap seq).mpr ⟨notInside, listLive⟩
  · rcases old with mine | outside
    · exact absurd mine ((without_live heap _).mp alive).1
    · exact Or.inr outside
  · have free := whole.free node left
    exact (without_live heap _).mpr ⟨free.loose list seq found, free.live⟩

/-- A list that a handler leaves is destroyed if it has no entries. -/
theorem Whole.leave (whole : Whole heap seqs loose) (found : seqs list = some seq) :
    ∃ heap', Ends (ListCode.leave list) heap () heap' ∧
      Whole heap' (Function.update seqs list (orNone seq)) loose ∧ heap'.val = heap.val ∧
        (∀ node, heap'.live node = true → heap.live node = true) ∧
          (seq = [] → heap'.live list = false) := by
  have live := whole.live found List.mem_cons_self
  have count := whole.represents.num list seq found
  cases seq with
  | nil =>
    obtain ⟨heap', ends, whole', vals, shrinks, gone⟩ := whole.destroy found
    exact ⟨heap', Ends.bind (ListCode.num_ends live) (Ends.ifPos count ends), whole', vals, shrinks,
      fun _ => gone⟩
  | cons node rest =>
    have some : heap.num list ≠ 0 := by
      rw [count]
      exact Nat.succ_ne_zero _
    refine ⟨heap, Ends.bind (ListCode.num_ends live) (Ends.ifNeg some (Ends.pure _ _)), ?_, rfl,
      fun _ alive => alive, fun empty => absurd empty (List.cons_ne_nil _ _)⟩
    rw [orNone, ← found, Function.update_eq_self]
    exact whole

end PseudoRedis
