/-
This file is about `LREM`. Its loops unlink the entry they stand on, having read the pointer
they go on with before; they follow `next` from the front or `prev` from the back. The
number of entries to remove from the back is the negated argument, and the least `long
long` has no opposite: with this argument nothing is removed.
-/

import PseudoRedis.Ranges
import PseudoRedis.Lib.Removal

namespace PseudoRedis

open Rings Removal

/-! ### The entries that are removed -/

variable {entries : List Bss} {bss : Bss} {p : Bss → Bool} {count target : Int}

/-- The loop with a target removes the first entries equal to the string, until as many are out. -/
theorem lremForward_drops (same : ∀ entry ∈ entries, bssCmp entry bss = 0 ↔ p entry = true)
    (fewer : count < target) :
    DropsFirst p (min (target - count).toNat (entries.countP p)) entries
        (lremForward bss target count entries).1 ∧
      (lremForward bss target count entries).2 =
        count + (min (target - count).toNat (entries.countP p) : Nat) := by
  induction entries generalizing count with
  | nil =>
    rw [List.countP_nil, Nat.min_zero]
    exact ⟨.none p [], (add_zero count).symm⟩
  | cons entry rest inductionHypothesis =>
    have others : ∀ entry ∈ rest, bssCmp entry bss = 0 ↔ p entry = true := fun entry member =>
      same entry (List.mem_cons_of_mem _ member)
    rw [lremForward]
    by_cases equal : bssCmp entry bss = 0
    · have goes := (same entry List.mem_cons_self).mp equal
      rw [if_pos ⟨equal, fewer⟩, List.countP_cons_of_pos goes]
      by_cases last : count + 1 = target
      · have one : min (target - count).toNat (rest.countP p + 1) = 0 + 1 := by omega
        rw [if_pos last, one]
        exact ⟨(DropsFirst.none p rest).drop goes, rfl⟩
      · obtain ⟨drops, counted⟩ := inductionHypothesis others (show count + 1 < target by omega)
        have more : min (target - count).toNat (rest.countP p + 1) =
            min (target - (count + 1)).toNat (rest.countP p) + 1 := by omega
        rw [if_neg last, more, counted]
        refine ⟨drops.drop goes, ?_⟩
        omega
    · have stays : p entry = false :=
        Bool.eq_false_iff.mpr fun goes => equal ((same entry List.mem_cons_self).mpr goes)
      obtain ⟨drops, counted⟩ := inductionHypothesis others fewer
      rw [if_neg fun both => equal both.1,
        List.countP_cons_of_neg (by simp only [stays, Bool.false_eq_true, not_false_eq_true])]
      exact ⟨drops.skip stays, counted⟩

/-- A count that is not below the target lets the loop remove nothing. -/
theorem lremForward_past (past : target ≤ count) (entries : List Bss) :
    lremForward bss target count entries = (entries, count) := by
  induction entries with
  | nil => rfl
  | cons entry rest inductionHypothesis =>
    rw [lremForward, if_neg fun both => absurd both.2 (Int.not_lt.mpr past), inductionHypothesis]

theorem lrem_of_pos (entries : List Bss) (bss : Bss) (positive : 0 < count) :
    lrem entries count bss = lremForward bss count 0 entries := if_pos positive

theorem lrem_zero (same : ∀ entry ∈ entries, bssCmp entry bss = 0 ↔ p entry = true) :
    lrem entries 0 bss = (entries.filter fun entry => !p entry, (entries.countP p : Int)) := by
  have stay : (entries.filter fun entry => bssCmp entry bss ≠ 0) =
      entries.filter fun entry => !p entry := by
    refine List.filter_congr fun entry member => ?_
    simp only [ne_eq, same entry member, Bool.not_eq_true, Bool.decide_eq_false]
  have go : (entries.filter fun entry => bssCmp entry bss = 0) = entries.filter p := by
    refine List.filter_congr fun entry member => ?_
    simp only [same entry member, Bool.decide_eq_true]
  rw [lrem, if_neg (by decide), if_pos rfl, stay, go, List.countP_eq_length_filter]

theorem lrem_of_neg (entries : List Bss) (bss : Bss) (negative : count < 0) :
    lrem entries count bss = ((lremForward bss (toInt64 (-count)) 0 entries.reverse).1.reverse,
      (lremForward bss (toInt64 (-count)) 0 entries.reverse).2) := by
  rw [lrem, if_neg (by omega), if_neg (by omega)]

/-- How many of the occurrences are to be removed. -/
def removedCount (count : Int) (found : Nat) : Nat :=
  if count = 0 then found else min count.natAbs found

/-- The list without these occurrences: the last ones if the count is negative, the first ones or
all of them otherwise. -/
def Leaves (p : Bss → Bool) (count : Int) (entries left : List Bss) : Prop :=
  if count < 0 then DropsLast p (removedCount count (entries.countP p)) entries left
  else DropsFirst p (removedCount count (entries.countP p)) entries left

/-- The three loops remove what they should, if the count can be negated. -/
theorem lrem_leaves (same : ∀ entry ∈ entries, bssCmp entry bss = 0 ↔ p entry = true)
    (inRange : IsInt64 count) (notLeast : count ≠ llongMin) :
    Leaves p count entries (lrem entries count bss).1 ∧
      (lrem entries count bss).2 = removedCount count (entries.countP p) := by
  rw [Leaves, removedCount]
  rcases Int.lt_trichotomy count 0 with negative | rfl | positive
  · have negated : toInt64 (-count) = -count := by
      rw [IsInt64, llongMin, llongMax] at inRange
      rw [llongMin] at notLeast
      exact toInt64_of_isInt64 ⟨by rw [llongMin]; omega, by rw [llongMax]; omega⟩
    have sameBack : ∀ entry ∈ entries.reverse, bssCmp entry bss = 0 ↔ p entry = true :=
      fun entry member => same entry (List.mem_reverse.mp member)
    obtain ⟨drops, counted⟩ := lremForward_drops sameBack (show 0 < -count by omega)
    have size : (-count - 0).toNat = count.natAbs := by omega
    rw [size, List.countP_reverse] at drops counted
    have back := drops.reverse
    rw [List.reverse_reverse] at back
    rw [lrem_of_neg entries bss negative, if_pos negative, if_neg (by omega), negated]
    exact ⟨back, counted.trans (zero_add _)⟩
  · rw [lrem_zero same, if_neg (by decide), if_pos rfl]
    exact ⟨.all p entries, rfl⟩
  · obtain ⟨drops, counted⟩ := lremForward_drops same positive
    have size : (count - 0).toNat = count.natAbs := by omega
    rw [size] at drops counted
    rw [lrem_of_pos entries bss positive, if_neg (by omega), if_neg (by omega)]
    exact ⟨drops, counted.trans (zero_add _)⟩

/-- The least `long long` is its own negation. -/
theorem lrem_least (entries : List Bss) (bss : Bss) :
    lrem entries llongMin bss = (entries, 0) := by
  rw [lrem_of_neg entries bss (by decide), lremForward_past (by decide), List.reverse_reverse]

/-! ### Walking from either end -/

variable {heap : ListHeap} {seqs : Sequences} {list node : Addr} {side : End}
  {seq done todo : List Addr}

/-- The pointer a walk from an end follows. -/
def ListHeap.walk (heap : ListHeap) : End → Addr → Addr
  | .left => heap.next
  | .right => heap.prev

/-- A sequence in the order of a walk from an end. -/
def oriented {Item : Type} (side : End) (seq : List Item) : List Item :=
  match side with
  | .left => seq
  | .right => seq.reverse

theorem mem_oriented {Item : Type} (side : End) {item : Item} {seq : List Item} :
    item ∈ oriented side seq ↔ item ∈ seq := by
  cases side with
  | left => exact Iff.rfl
  | right => exact List.mem_reverse

theorem oriented_oriented {Item : Type} (side : End) (seq : List Item) :
    oriented side (oriented side seq) = seq := by
  cases side with
  | left => rfl
  | right => exact List.reverse_reverse seq

theorem Shows.oriented {seq : List Addr} {entries : List Bss} (shows : Shows heap seq entries)
    (side : End) : Shows heap (oriented side seq) (oriented side entries) := by
  cases side with
  | left => exact shows
  | right =>
    show seq.reverse.map heap.val = entries.reverse.map some
    rw [List.map_reverse, List.map_reverse, show seq.map heap.val = entries.map some from shows]

theorem walk_head (ring : Ring heap.next heap.prev list seq) (side : End) :
    heap.walk side list = after list (oriented side seq) := by
  cases side with
  | left => exact ring.next_head
  | right => exact ring.swap.next_head

theorem walk_node (ring : Ring heap.next heap.prev list seq)
    (split : oriented side seq = done ++ node :: todo) :
    heap.walk side node = after list todo := by
  cases side with
  | left =>
    rw [show seq = done ++ node :: todo from split] at ring
    exact ring.neighbours.1
  | right =>
    have swapped := ring.swap
    rw [show seq.reverse = done ++ node :: todo from split] at swapped
    exact swapped.neighbours.1

theorem Represents.removed {front back : List Addr} (represents : Represents heap seqs)
    (found : seqs list = some (front ++ node :: back)) :
    Represents (listRm heap list node) (Function.update seqs list (some (front ++ back))) := by
  obtain ⟨holds, first⟩ := represents.holdsAt found
  have removed := represents.rm holds
  rwa [edit_of_found found, erase_of_split first] at removed

/-- An entry unlinked in the middle of a walk. -/
theorem Represents.removedWalking (represents : Represents heap seqs) (found : seqs list = some seq)
    (split : oriented side seq = done ++ node :: todo) :
    ∃ seq', Represents (listRm heap list node) (Function.update seqs list (some seq')) ∧
      oriented side seq' = done ++ todo := by
  cases side with
  | left =>
    rw [show seq = done ++ node :: todo from split] at found
    exact ⟨_, represents.removed found, rfl⟩
  | right =>
    have turned : seq = todo.reverse ++ node :: done.reverse := by
      rw [← List.reverse_reverse seq, show seq.reverse = done ++ node :: todo from split,
        List.reverse_append, List.reverse_cons, List.append_assoc, List.singleton_append]
    rw [turned] at found
    refine ⟨_, represents.removed found, ?_⟩
    rw [oriented, List.reverse_append, List.reverse_reverse, List.reverse_reverse]

/-! ### The loops -/

/-- `count < target`, in the loops that have a target. -/
def within : Option Int → Int → Bool
  | none, _ => true
  | some target, count => count < target

/-- A loop of `_lrem`. The two loops with a target test the count against it. -/
def lremLoop (side : End) (list : Addr) (bss : Bss) (target : Option Int) :
    Nat → Int → ListHeap → Addr → Option (ListHeap × Int)
  | 0, _, _, _ => none
  | fuel + 1, count, heap, entry =>
      if entry = list then some (heap, count)
      else
        match heap.val entry with
        | none => none
        | some val =>
            let next := heap.walk side entry
            if bssCmp val bss = 0 ∧ within target count then
              let heap := listRm heap list entry
              if some (toInt32 (count + 1)) = target then some (heap, toInt32 (count + 1))
              else lremLoop side list bss target fuel (toInt32 (count + 1)) heap next
            else lremLoop side list bss target fuel count heap next

/-- `_lrem` over a list in memory. -/
def lremMemory (heap : ListHeap) (list : Addr) (target : Int) (bss : Bss) (fuel : Nat) :
    Option (ListHeap × Int) :=
  if target > 0 then lremLoop .left list bss (some target) fuel 0 heap (heap.walk .left list)
  else if target = 0 then lremLoop .left list bss none fuel 0 heap (heap.walk .left list)
  else lremLoop .right list bss (some (toInt64 (-target))) fuel 0 heap (heap.walk .right list)

/-- What a loop does to the strings it has before it. -/
def removing (bss : Bss) (target : Option Int) : Int → List Bss → List Bss × Int
  | count, [] => ([], count)
  | count, entry :: rest =>
      if bssCmp entry bss = 0 ∧ within target count then
        if some (count + 1) = target then (rest, count + 1)
        else removing bss target (count + 1) rest
      else ((entry :: (removing bss target count rest).1), (removing bss target count rest).2)

theorem removing_some (bss : Bss) (target count : Int) (entries : List Bss) :
    removing bss (some target) count entries = lremForward bss target count entries := by
  induction entries generalizing count with
  | nil => rfl
  | cons entry rest inductionHypothesis =>
    rw [removing, lremForward, inductionHypothesis, inductionHypothesis]
    simp only [within, decide_eq_true_eq, Option.some.injEq]

theorem removing_none (bss : Bss) (count : Int) (entries : List Bss) :
    removing bss none count entries = (entries.filter fun entry => bssCmp entry bss ≠ 0,
      count + (entries.filter fun entry => bssCmp entry bss = 0).length) := by
  induction entries generalizing count with
  | nil => exact Prod.ext rfl (add_zero count).symm
  | cons entry rest inductionHypothesis =>
    rw [removing, inductionHypothesis, inductionHypothesis]
    by_cases equal : bssCmp entry bss = 0
    · rw [if_pos ⟨equal, rfl⟩, if_neg (Option.some_ne_none _),
        List.filter_cons_of_neg (by simp only [equal, ne_eq, not_true_eq_false, decide_false,
          Bool.false_eq_true, not_false_eq_true]),
        List.filter_cons_of_pos (by simp only [equal, decide_true]), List.length_cons,
        Nat.cast_add, Nat.cast_one, add_assoc, add_comm (1 : Int)]
    · rw [if_neg fun both => equal both.1,
        List.filter_cons_of_pos (by simp only [equal, ne_eq, not_false_eq_true, decide_true]),
        List.filter_cons_of_neg (by simp only [equal, decide_false, Bool.false_eq_true,
          not_false_eq_true])]

/-- One turn of a loop at an entry that holds a string. -/
theorem lremLoop_step (bss : Bss) (target : Option Int) {val : Bss}
    (ring : Ring heap.next heap.prev list seq) (split : oriented side seq = done ++ node :: todo)
    (held : heap.val node = some val) (small : IsInt32 (count + 1)) (fuel : Nat) :
    lremLoop side list bss target (fuel + 1) count heap node =
      if bssCmp val bss = 0 ∧ within target count then
        if some (count + 1) = target then some (listRm heap list node, count + 1)
        else lremLoop side list bss target fuel (count + 1) (listRm heap list node)
          (after list todo)
      else lremLoop side list bss target fuel count heap (after list todo) := by
  have inside : node ∈ seq := by
    rw [← mem_oriented side, split]
    exact List.mem_append_right _ List.mem_cons_self
  rw [lremLoop, if_neg (ring.ne_head inside)]
  simp only [held, walk_node ring split, (toInt32_eq_iff _).mpr small]

/-- A loop over a list in memory removes the entries of those strings. By induction on the entries
before it; `done` are those it has left behind. -/
theorem lremLoop_eq (bss : Bss) (target : Option Int) {fuel : Nat}
    (represents : Represents heap seqs) (found : seqs list = some seq)
    (split : oriented side seq = done ++ todo) (shows : Shows heap todo entries)
    (nonnegative : 0 ≤ count) (few : count + todo.length < 2 ^ 31) (enough : todo.length < fuel) :
    ∃ heap' seq' todo', lremLoop side list bss target fuel count heap (after list todo) =
        some (heap', (removing bss target count entries).2) ∧
      Represents heap' (Function.update seqs list (some seq')) ∧
      oriented side seq' = done ++ todo' ∧
      Shows heap' todo' (removing bss target count entries).1 ∧ heap'.val = heap.val := by
  obtain ⟨steps, rfl⟩ : ∃ steps, fuel = steps + 1 := ⟨fuel - 1, by omega⟩
  induction todo generalizing heap seqs seq done entries count steps with
  | nil =>
    obtain rfl : entries = [] := List.map_eq_nil_iff.mp shows.symm
    refine ⟨heap, seq, [], if_pos rfl, ?_, split, rfl, rfl⟩
    rwa [← found, Function.update_eq_self]
  | cons node todo inductionHypothesis =>
    obtain ⟨val, rest, rfl, held, others⟩ := shows.cons_inv
    rw [List.length_cons] at few enough
    obtain ⟨fewer, rfl⟩ : ∃ fewer, steps = fewer + 1 := ⟨steps - 1, by omega⟩
    have small : IsInt32 (count + 1) := ⟨by omega, by omega⟩
    show ∃ heap' seq' todo', lremLoop side list bss target _ count heap node = _ ∧ _
    rw [lremLoop_step bss target (represents.ring _ _ found) split held small, removing]
    by_cases hit : bssCmp val bss = 0 ∧ within target count
    · -- the entry goes, and the walk goes on from the pointer read before
      obtain ⟨seq', removed, split'⟩ := represents.removedWalking found split
      have others' : Shows (listRm heap list node) todo rest := others
      rw [if_pos hit, if_pos hit]
      by_cases reached : some (count + 1) = target
      · rw [if_pos reached, if_pos reached]
        exact ⟨_, seq', todo, rfl, removed, split', others', rfl⟩
      · rw [if_neg reached, if_neg reached]
        obtain ⟨heap', final, todo', ran, represents', split'', shows', vals⟩ :=
          inductionHypothesis removed (Function.update_self _ _ _) split' others'
            (show 0 ≤ count + 1 by omega) (by omega) fewer (by omega)
        rw [Function.update_idem] at represents'
        exact ⟨heap', final, todo', ran, represents', split'', shows', vals⟩
    · -- the entry stays and joins those left behind
      rw [if_neg hit, if_neg hit]
      have split' : oriented side seq = (done ++ [node]) ++ todo := by
        rw [split, List.append_assoc, List.singleton_append]
      obtain ⟨heap', final, todo', ran, represents', split'', shows', vals⟩ :=
        inductionHypothesis represents found split' others nonnegative (by omega) fewer (by omega)
      refine ⟨heap', final, node :: todo', ran, represents', ?_, ?_, vals⟩
      · rw [split'', List.append_assoc, List.singleton_append]
      · have own : heap'.val node = some val := (congrFun vals node).trans held
        exact congrArg₂ List.cons own shows'

/-- A loop over the whole list in memory. -/
theorem Stored.lremLoop (stored : Stored heap seqs list seq entries) (side : End) (bss : Bss)
    (target : Option Int) (few : entries.length < 2 ^ 31) {fuel : Nat}
    (enough : heap.num list < fuel) :
    ∃ heap' seq', lremLoop side list bss target fuel 0 heap (heap.walk side list) =
        some (heap', (removing bss target 0 (oriented side entries)).2) ∧
      Represents heap' (Function.update seqs list (some seq')) ∧
      Shows heap' seq' (oriented side (removing bss target 0 (oriented side entries)).1) := by
  have size := stored.represents.num _ _ stored.found
  have same : seq.length = entries.length := size.symm.trans stored.num
  have length : (oriented side seq).length = seq.length := by
    cases side with
    | left => rfl
    | right => exact List.length_reverse
  obtain ⟨heap', seq', todo', ran, represents, split, shows, -⟩ :=
    lremLoop_eq bss target stored.represents stored.found (List.nil_append _).symm
      (stored.shows.oriented side) (Int.le_refl 0) (by omega)
      (show (oriented side seq).length < fuel by omega)
  rw [walk_head (stored.represents.ring _ _ stored.found)]
  refine ⟨heap', seq', ran, represents, ?_⟩
  have turned := shows.oriented side
  rw [List.nil_append] at split
  rwa [← split, oriented_oriented] at turned

/-- `_lrem` over a list in memory leaves the strings `lrem` leaves, and returns how many it has
removed. -/
def RemovesInMemory (heap : ListHeap) (seqs : Sequences) (list : Addr) (target : Int) (bss : Bss)
    (left : List Bss) (removed : Int) : Prop :=
  ∀ fuel, heap.num list < fuel →
    ∃ heap' seq', lremMemory heap list target bss fuel = some (heap', removed) ∧
      Represents heap' (Function.update seqs list (some seq')) ∧ Shows heap' seq' left

theorem Stored.removesInMemory (stored : Stored heap seqs list seq entries) (target : Int)
    (bss : Bss) (few : entries.length < 2 ^ 31) :
    RemovesInMemory heap seqs list target bss (lrem entries target bss).1
      (lrem entries target bss).2 := by
  intro fuel enough
  rw [lremMemory]
  rcases Int.lt_trichotomy target 0 with negative | rfl | positive
  · obtain ⟨heap', seq', ran, represents, shows⟩ :=
      stored.lremLoop .right bss (some (toInt64 (-target))) few enough
    rw [removing_some] at ran shows
    rw [if_neg (by omega), if_neg (by omega), lrem_of_neg entries bss negative]
    exact ⟨heap', seq', ran, represents, shows⟩
  · obtain ⟨heap', seq', ran, represents, shows⟩ := stored.lremLoop .left bss none few enough
    rw [removing_none, zero_add] at ran
    rw [removing_none] at shows
    rw [if_neg (by decide), if_pos rfl, lrem, if_neg (by decide), if_pos rfl]
    exact ⟨heap', seq', ran, represents, shows⟩
  · obtain ⟨heap', seq', ran, represents, shows⟩ :=
      stored.lremLoop .left bss (some target) few enough
    rw [removing_some] at ran shows
    rw [if_pos positive, lrem_of_pos entries bss positive]
    exact ⟨heap', seq', ran, represents, shows⟩

/-! ### The command -/

variable {dict : Dict Obj} {key target bss : Bss} {c : Int}

/-- An entry is equal to a string. -/
def equals (bss entry : Bss) : Bool := entry.content = bss.content

/-- `LREM` removes the occurrences it is asked to remove and replies their number. The key is gone
if no entry is left, and the other keys are as they were. The loops over the list in memory do the
same. -/
def RemovesEntries (dict : Dict Obj) (key target bss : Bss) (entries : List Bss) (c : Int) :
    Prop :=
  ∃ dict' left, lremCommand dict [key, target, bss] =
      intReply dict' (removedCount c (entries.countP (equals bss))) ∧
    Leaves (equals bss) c entries left ∧
    (dictLookUp dict' key = if left = [] then none else some (.list left)) ∧
    (∀ other : Bss, other.Short → other.content ≠ key.content →
      dictLookUp dict' other = dictLookUp dict other) ∧
    ∀ heap seqs list seq, Stored heap seqs list seq entries →
      RemovesInMemory heap seqs list c bss left (removedCount c (entries.countP (equals bss)))

theorem lrem_run (bss : Bss) (answer : dictLookUp dict key = some (.list entries))
    (number : bss2int target = (c, 0)) :
    lremCommand dict [key, target, bss] =
      intReply (putList dict key key (lrem entries c bss).1) (lrem entries c bss).2 := by
  simp only [lremCommand, number, answer, ne_eq, not_true_eq_false, if_false]

theorem equals_iff (shorts : ∀ entry ∈ entries, entry.Short) (short : bss.Short) :
    ∀ entry ∈ entries, bssCmp entry bss = 0 ↔ equals bss entry = true := by
  intro entry member
  rw [bssCmp_eq_zero_iff (shorts entry member) short, equals, decide_eq_true_eq]

theorem countP_equals_zero :
    entries.countP (equals bss) = 0 ↔ bss.content ∉ entries.map Bss.content := by
  rw [List.countP_eq_zero, List.mem_map]
  constructor
  · rintro none ⟨entry, member, same⟩
    exact none entry member (decide_eq_true same)
  · intro none entry member same
    exact none ⟨entry, member, of_decide_eq_true same⟩

/-- `LREM` does this whenever `lrem` leaves the right entries. -/
theorem removesEntries_of_leaves (placed : dict.Placed) (short : key.Short)
    (answer : dictLookUp dict key = some (.list entries)) (few : entries.length < 2 ^ 31)
    (number : bss2int target = (c, 0))
    (leaves : Leaves (equals bss) c entries (lrem entries c bss).1)
    (removed : (lrem entries c bss).2 = removedCount c (entries.countP (equals bss))) :
    RemovesEntries dict key target bss entries c := by
  refine ⟨putList dict key key (lrem entries c bss).1, (lrem entries c bss).1, ?_, leaves,
    lookUp_putList_self placed short answer _, fun other otherShort different =>
      lookUp_putList_of_ne placed short otherShort different _,
    fun heap seqs list seq stored => ?_⟩
  · rw [lrem_run bss answer number, removed]
  · rw [← removed]
    exact stored.removesInMemory c bss few

/-- With the least count the list stays, so nothing was to be removed if that is right. -/
theorem none_of_least (placed : dict.Placed) (short : key.Short)
    (answer : dictLookUp dict key = some (.list entries))
    (number : bss2int target = (llongMin, 0))
    (removes : RemovesEntries dict key target bss entries llongMin) :
    entries.countP (equals bss) = 0 := by
  obtain ⟨dict', left, ran, leaves, found, -, -⟩ := removes
  have same := lrem_run bss answer number
  rw [ran, lrem_least] at same
  rw [dict_of_intReply (Shared.holding []) same, lookUp_putList_self placed short answer] at found
  rw [Leaves, if_pos (by decide)] at leaves
  have parts := leaves.length
  have kept : left.length = entries.length := by
    by_cases empty : entries = []
    · rw [empty, List.length_nil] at parts ⊢
      omega
    · rw [if_neg empty] at found
      split at found
      · cases found
      · cases found
        rfl
  have several : removedCount llongMin (entries.countP (equals bss)) =
      min llongMin.natAbs (entries.countP (equals bss)) := if_neg (by decide)
  have size : llongMin.natAbs = 2 ^ 63 := rfl
  rw [several, size] at parts
  omega

/-- `LREM` removes what it should exactly if its count has an opposite or nothing is to be
removed. -/
theorem lrem_removes_iff (dict : Dict Obj) (key target bss : Bss) (entries : List Bss) (c : Int)
    (placed : dict.Placed) (short : key.Short) (bssShort : bss.Short)
    (shorts : ∀ entry ∈ entries, entry.Short)
    (answer : dictLookUp dict key = some (.list entries)) (few : entries.length < 2 ^ 31)
    (number : bss2int target = (c, 0)) :
    RemovesEntries dict key target bss entries c ↔
      c ≠ llongMin ∨ bss.content ∉ entries.map Bss.content := by
  rw [← countP_equals_zero]
  by_cases least : c = llongMin
  · subst least
    rw [or_iff_right (not_not.mpr rfl)]
    constructor
    · intro removes
      exact none_of_least placed short answer number removes
    · intro none
      refine removesEntries_of_leaves placed short answer few number ?_ ?_
      · rw [lrem_least, Leaves, if_pos (by decide), none]
        exact .none _ entries
      · rw [lrem_least, none]
        rfl
  · refine iff_of_true ?_ (Or.inl least)
    obtain ⟨leaves, removed⟩ :=
      lrem_leaves (equals_iff shorts bssShort) (isInt64_of_number number) least
    exact removesEntries_of_leaves placed short answer few number leaves removed

/-- The key space after `RPUSH b x y x`. -/
def thriceKey : Dict Obj := dictAdd (dictCreate initDictSize) (textArg 1 "b")
  (.list [textArg 2 "x", textArg 3 "y", textArg 4 "x"])

/-- `LREM b -1 x` removes the last `x`. -/
theorem lrem_removes_iff_last :
    RemovesEntries thriceKey (textArg 5 "b") (textArg 6 "-1") (textArg 7 "x")
      [textArg 2 "x", textArg 3 "y", textArg 4 "x"] (-1) := by
  have placed : thriceKey.Placed := dictAdd_placed (dictCreate_wellFormed (by decide)).toPlaced
    (textArg_arg 1 (by decide)).short _
  refine (lrem_removes_iff thriceKey (textArg 5 "b") (textArg 6 "-1") (textArg 7 "x") _ (-1) placed
    (textArg_arg 5 (by decide)).short (textArg_arg 7 (by decide)).short ?_ rfl (by decide) rfl).mpr
      (Or.inl (by decide))
  simp only [List.forall_mem_cons]
  exact ⟨(textArg_arg 2 (by decide)).short, (textArg_arg 3 (by decide)).short,
    (textArg_arg 4 (by decide)).short, fun entry none => by cases none⟩

/-- `LREM b -9223372036854775808 x` after `RPUSH b x` replies 0 and leaves the list as it is. -/
theorem lrem_least_removes_nothing :
    ∃ (dict : Dict Obj) (key target bss : Bss) (entries : List Bss) (c : Int),
      Reachable (fun _ _ => True) dict ∧ dict.Placed ∧ key.Short ∧ bss.Short ∧
      dictLookUp dict key = some (.list entries) ∧ bss2int target = (c, 0) ∧
      bss.content ∈ entries.map Bss.content ∧
      ¬ RemovesEntries dict key target bss entries c ∧
      ∃ dict', lremCommand dict [key, target, bss] = intReply dict' 0 ∧
        dictLookUp dict' key = some (.list entries) := by
  have number : bss2int (textArg 5 "-9223372036854775808") = (llongMin, 0) := rfl
  have ran : lremCommand pushedKey
      [textArg 4 "b", textArg 5 "-9223372036854775808", textArg 6 "x"] =
        intReply (dictSetVal pushedKey (textArg 4 "b") (.list [textArg 2 "x"])) 0 := rfl
  have stays : dictLookUp (dictSetVal pushedKey (textArg 4 "b") (.list [textArg 2 "x"]))
      (textArg 4 "b") = some (.list [textArg 2 "x"]) := rfl
  refine ⟨pushedKey, textArg 4 "b", textArg 5 "-9223372036854775808", textArg 6 "x",
    [textArg 2 "x"], llongMin, pushedKey_reachable, pushedKey_placed,
    (textArg_arg 4 (by decide)).short, (textArg_arg 6 (by decide)).short, rfl, number,
    List.mem_cons_self, ?_, _, ran, stays⟩
  rintro ⟨dict', left, ran', leaves, found, -⟩
  rw [← dict_of_intReply (Shared.holding []) (ran.symm.trans ran'), stays] at found
  rw [Leaves, if_pos (by decide)] at leaves
  have parts := leaves.length
  have one : removedCount llongMin ([textArg 2 "x"].countP (equals (textArg 6 "x"))) = 1 := rfl
  rw [one] at parts
  split at found
  · cases found
  · cases found
    cases parts

end PseudoRedis
