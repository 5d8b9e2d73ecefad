/-
This file is about `LRANGE` and `LTRIM`. Both read two offsets into a list, from its
start or from its end. The slice they stand for is a general notion; the two commands
compute it with different loops over the ring of the list, one that reads the entries and
one that moves them to a new list while it walks.
-/

import PseudoRedis.ListRing
import PseudoRedis.BlockingPop

namespace PseudoRedis

open Rings

/-! ### Slices -/

/-- The index counted from the front; a negative one counts from the end. -/
def normalize (length : Nat) (index : Int) : Int := if index < 0 then index + length else index

/-- The elements from one index to another, both included and cut to the sequence. -/
def slice {Item : Type} (seq : List Item) (first last : Int) : List Item :=
  let start := max 0 (normalize seq.length first)
  let stop := min ((seq.length : Int) - 1) (normalize seq.length last)
  if stop < start ∨ seq.length ≤ start then []
  else (seq.drop start.toNat).take (stop - start + 1).toNat

theorem length_slice_le {Item : Type} (seq : List Item) (first last : Int) :
    (slice seq first last).length ≤ seq.length := by
  simp only [slice]
  split
  · exact Nat.zero_le _
  · exact ((List.take_sublist _ _).trans (List.drop_sublist _ _)).length_le

/-- From the first element to the last one. -/
theorem slice_all {Item : Type} (seq : List Item) : slice seq 0 (-1) = seq := by
  have start : max 0 (normalize seq.length 0) = 0 := rfl
  have stop : min ((seq.length : Int) - 1) (normalize seq.length (-1)) = seq.length - 1 := by
    rw [normalize, if_pos (by decide)]
    omega
  simp only [slice, start, stop]
  split
  · rename_i empty
    have none : seq.length = 0 := by omega
    exact (List.length_eq_zero_iff.mp none).symm
  · have whole : ((seq.length : Int) - 1 - 0 + 1).toNat = seq.length := by omega
    rw [whole, Int.toNat_zero, List.drop_zero, List.take_length]

/-! ### The offsets of the code -/

theorem fromEnd_eq {index : Int} (inRange : IsInt64 index) {length : Nat}
    (small : length < 2 ^ 63) : fromEnd index length = normalize length index := by
  rw [fromEnd, normalize]
  split
  · refine toInt64_of_isInt64 ?_
    rw [IsInt64, llongMin, llongMax] at inRange ⊢
    omega
  · rfl

theorem rangeStart_eq {index : Int} (inRange : IsInt64 index) {length : Nat}
    (small : length < 2 ^ 63) : rangeStart index length = max 0 (normalize length index) := by
  rw [rangeStart, fromEnd_eq inRange small]
  split <;> omega

theorem normalize_lt {index : Int} (inRange : IsInt64 index) {length : Nat}
    (small : length < 2 ^ 63) : normalize length index < 2 ^ 63 := by
  rw [IsInt64, llongMin, llongMax] at inRange
  rw [normalize]
  split <;> omega

/-- The code's range is empty or ends where the slice does. -/
theorem slice_eq_sublist {first last : Int} (firstRange : IsInt64 first) (lastRange : IsInt64 last)
    {entries : List Bss} (small : entries.length < 2 ^ 63) :
    slice entries first last =
      if emptyRange (rangeStart first entries.length) (fromEnd last entries.length)
        entries.length then []
      else sublist entries (rangeStart first entries.length) (fromEnd last entries.length) := by
  have below := normalize_lt firstRange small
  have size : toSize (max 0 (normalize entries.length first)) =
      (max 0 (normalize entries.length first)).toNat := toSize_of_nonneg (by omega) (by omega)
  rw [rangeStart_eq firstRange small, fromEnd_eq lastRange small]
  simp only [slice, emptyRange, size]
  by_cases empty : normalize entries.length last < max 0 (normalize entries.length first) ∨
      entries.length ≤ (max 0 (normalize entries.length first)).toNat
  · rw [if_pos empty, if_pos (by omega)]
  · rw [if_neg empty, if_neg (by omega), sublist]
    rcases Int.lt_or_le (normalize entries.length last) entries.length with inside | beyond
    · rw [min_eq_right (by omega)]
    · have rest : (entries.drop (max 0 (normalize entries.length first)).toNat).length =
          entries.length - (max 0 (normalize entries.length first)).toNat := List.length_drop
      rw [min_eq_left (by omega), List.take_of_length_le (by omega),
        List.take_of_length_le (by omega)]

/-! ### Walking over a ring -/

variable {heap : ListHeap} {seqs : Sequences} {list : Addr}

/-- `for(i = 0; i <= offset; ++i) entry = entry->next` from the head. -/
def findEntry (heap : ListHeap) (list : Addr) (offset : Nat) : Addr := heap.next^[offset + 1] list

/-- `for(i = ..; i <= stop && i < list->num; ++i)`: the strings passed to `addto_reply_arr`. -/
def collect (heap : ListHeap) (num stop : Nat) : Nat → Nat → Addr → Option (List (Option Bss))
  | 0, _, _ => none
  | fuel + 1, i, entry =>
      if i ≤ stop ∧ i < num then
        (collect heap num stop fuel (i + 1) (heap.next entry)).map (heap.val entry :: ·)
      else some []

/-- The loop of `ltrim_command` that fills the new list. -/
def trimLoop (list newList : Addr) (last : Int) : Nat → Int → ListHeap → Addr → Option ListHeap
  | 0, _, _, _ => none
  | fuel + 1, first, heap, entry =>
      if entry = list then some heap
      else
        let next := heap.next entry
        let heap := listMoveBack heap entry list newList
        if first = last then some heap else trimLoop list newList last fuel (first + 1) heap next

theorem iterate_next {front back : List Addr}
    (ring : Ring heap.next heap.prev list (front ++ back)) :
    heap.next^[front.length] list = before list front := by
  induction front using List.reverseRecOn generalizing back with
  | nil => rfl
  | append_singleton front node inductionHypothesis =>
    have shorter : Ring heap.next heap.prev list (front ++ node :: back) := by
      rwa [List.append_assoc] at ring
    rw [List.length_append, List.length_singleton, Function.iterate_succ_apply',
      inductionHypothesis shorter, shorter.next_before, before, List.getLastD_concat]
    rfl

/-- The first loop finds the entry at an offset. -/
theorem findEntry_eq {front back : List Addr}
    (ring : Ring heap.next heap.prev list (front ++ back)) :
    findEntry heap list front.length = after list back := by
  rw [findEntry, Function.iterate_succ_apply', iterate_next ring, ring.next_before]

/-- The second loop of `LRANGE` reads the entries up to its end or the end of the list. -/
theorem collect_eq {front back : List Addr} {stop num fuel : Nat}
    (ring : Ring heap.next heap.prev list (front ++ back)) (size : num = (front ++ back).length)
    (enough : back.length < fuel) :
    collect heap num stop fuel front.length (after list back) =
      some ((back.take (stop + 1 - front.length)).map heap.val) := by
  induction back generalizing front fuel with
  | nil =>
    obtain ⟨steps, rfl⟩ : ∃ steps, fuel = steps + 1 := ⟨fuel - 1, by omega⟩
    rw [List.append_nil] at size
    rw [collect, if_neg (by omega), List.take_nil]
    rfl
  | cons node rest inductionHypothesis =>
    obtain ⟨steps, rfl⟩ : ∃ steps, fuel = steps + 1 := ⟨fuel - 1, by omega⟩
    have moved : Ring heap.next heap.prev list ((front ++ [node]) ++ rest) := by
      rwa [List.append_assoc, List.singleton_append]
    have goesOn := @inductionHypothesis (front ++ [node]) steps moved
      (by rw [size, List.append_assoc, List.singleton_append])
      (by rw [List.length_cons] at enough; omega)
    have longer : (front ++ [node]).length = front.length + 1 := List.length_append
    rw [longer] at goesOn
    rw [List.length_append, List.length_cons] at size
    rw [collect]
    show (if front.length ≤ stop ∧ front.length < num then
      (collect heap num stop steps (front.length + 1) (heap.next node)).map (heap.val node :: ·)
      else some []) = _
    by_cases reached : front.length ≤ stop
    · have more : stop + 1 - front.length = (stop + 1 - (front.length + 1)) + 1 := by omega
      rw [if_pos ⟨reached, by omega⟩, ring.neighbours.1, goesOn, more, List.take_succ_cons]
      rfl
    · have none : stop + 1 - front.length = 0 := by omega
      rw [if_neg (fun both => reached both.1), none, List.take_zero]
      rfl

/-! ### Moving entries while walking -/

theorem listMoveBack_val (heap : ListHeap) (entry src dst : Addr) :
    (listMoveBack heap entry src dst).val = heap.val := rfl

/-- Moving an entry in the middle of a list to the back of another one. -/
theorem Represents.moved (represents : Represents heap seqs) {newList node : Addr}
    {front back moved : List Addr} (source : seqs list = some (front ++ node :: back))
    (target : seqs newList = some moved) (apart : newList ≠ list) :
    ∃ seqs', Represents (listMoveBack heap node list newList) seqs' ∧
      seqs' list = some (front ++ back) ∧ seqs' newList = some (moved ++ [node]) := by
  obtain ⟨holds, fresh⟩ := represents.holdsAt source
  have present : seqs newList ≠ none := by
    rw [target]
    exact Option.some_ne_none _
  have stepped := (represents.step (.moveBack node list newList)
    ⟨apart.symm, holds, present⟩).1
  refine ⟨_, stepped, ?_, ?_⟩
  · show ((seqs.edit list (·.erase node)).edit newList (· ++ [node])) list = _
    have kept : seqs.edit list (·.erase node) newList = some moved := by
      rw [edit_of_found source, Function.update_of_ne apart, target]
    rw [edit_of_found kept, Function.update_of_ne apart.symm, edit_of_found source,
      Function.update_self, erase_of_split fresh]
  · show ((seqs.edit list (·.erase node)).edit newList (· ++ [node])) newList = _
    have kept : seqs.edit list (·.erase node) newList = some moved := by
      rw [edit_of_found source, Function.update_of_ne apart, target]
    rw [edit_of_found kept, Function.update_self]

/-- The loop of `LTRIM` moves the entries up to its end or the end of the list. -/
theorem trimLoop_eq {newList node : Addr} {front back moved : List Addr} {first last : Int}
    {fuel : Nat} (represents : Represents heap seqs)
    (source : seqs list = some (front ++ node :: back)) (target : seqs newList = some moved)
    (apart : newList ≠ list) (ordered : first ≤ last) (enough : back.length + 1 < fuel) :
    ∃ heap' seqs', trimLoop list newList last fuel first heap node = some heap' ∧
      Represents heap' seqs' ∧
      seqs' newList = some (moved ++ (node :: back).take (last - first + 1).toNat) ∧
      heap'.val = heap.val := by
  induction back generalizing heap seqs node moved first fuel with
  | nil =>
    obtain ⟨steps, rfl⟩ : ∃ steps, fuel = steps + 1 + 1 := ⟨fuel - 2, by omega⟩
    have ring := represents.ring _ _ source
    obtain ⟨seqs', after, -, filled⟩ := represents.moved source target apart
    refine ⟨_, seqs', ?_, after, ?_, listMoveBack_val heap node list newList⟩
    · have notHead := ring.ne_head (List.mem_append_right _ List.mem_cons_self)
      have next : heap.next node = list := ring.neighbours.1
      simp only [trimLoop, notHead, if_false, next, if_true, ite_self]
    · obtain ⟨more, count⟩ : ∃ more, (last - first + 1).toNat = more + 1 :=
        ⟨(last - first).toNat, by omega⟩
      rw [filled, count, List.take_succ_cons, List.take_nil]
  | cons other rest inductionHypothesis =>
    obtain ⟨steps, rfl⟩ : ∃ steps, fuel = steps + 1 := ⟨fuel - 1, by omega⟩
    have ring := represents.ring _ _ source
    obtain ⟨seqs', after, remaining, filled⟩ := represents.moved source target apart
    have notHead := ring.ne_head (List.mem_append_right _ List.mem_cons_self)
    have next : heap.next node = other := ring.neighbours.1
    by_cases done : first = last
    · refine ⟨_, seqs', ?_, after, ?_, listMoveBack_val heap node list newList⟩
      · rw [trimLoop, if_neg notHead]
        exact if_pos done
      · have count : (last - first + 1).toNat = 1 := by omega
        rw [filled, count, List.take_succ_cons, List.take_zero]
    · rw [List.length_cons] at enough
      obtain ⟨heap', final, ran, represented, whole, vals⟩ :=
        @inductionHypothesis (listMoveBack heap node list newList) seqs' other (moved ++ [node])
          (first + 1) steps after remaining filled (by omega) (by omega)
      refine ⟨heap', final, ?_, represented, ?_, vals.trans (listMoveBack_val _ _ _ _)⟩
      · rw [trimLoop, if_neg notHead, next]
        exact (if_neg done).trans ran
      · have count : (last - first + 1).toNat = (last - (first + 1) + 1).toNat + 1 := by omega
        rw [whole, count, List.take_succ_cons, List.append_assoc, List.singleton_append]

/-! ### The list a key holds -/

/-- The list of a key in memory: a ring of entries that hold its strings, each at an address
`malloc` can return. -/
structure Stored (heap : ListHeap) (seqs : Sequences) (list : Addr) (seq : List Addr)
    (entries : List Bss) : Prop where
  represents : Represents heap seqs
  found : seqs list = some seq
  shows : Shows heap seq entries
  aligned : ∀ node ∈ seq, 16 ∣ node.val

variable {seq : List Addr} {entries : List Bss}

/-- Entries lie 16 bytes apart, so there are fewer than a signed number can count. -/
theorem Stored.small (stored : Stored heap seqs list seq entries) : entries.length < 2 ^ 63 := by
  have nodup := (List.nodup_cons.mp (stored.represents.ring _ _ stored.found).nodup).2
  have same : seq.length = entries.length := by
    have lengths := congrArg List.length stored.shows
    rwa [List.length_map, List.length_map] at lengths
  let slot : Addr → Fin (2 ^ 60) := fun node => ⟨node.val / 16, by have := node.isLt; omega⟩
  have distinct : (seq.map slot).Nodup := by
    refine List.Nodup.map_on (fun first inSeq second inSeq' equal => ?_) nodup
    have quotients : first.val / 16 = second.val / 16 := congrArg Fin.val equal
    have firstAligned := stored.aligned first inSeq
    have secondAligned := stored.aligned second inSeq'
    exact Fin.ext (by omega)
  have most := distinct.length_le_card
  rw [List.length_map, Fintype.card_fin] at most
  omega

theorem Stored.num (stored : Stored heap seqs list seq entries) :
    heap.num list = entries.length := by
  have lengths := congrArg List.length stored.shows
  rw [List.length_map, List.length_map] at lengths
  rw [stored.represents.num _ _ stored.found, lengths]

/-- The loops of `LRANGE` over a list in memory pass these strings. -/
def RangeLoops (heap : ListHeap) (list : Addr) (first last : Int) (passed : List Bss) : Prop :=
  ∀ fuel, heap.num list < fuel →
    collect heap (heap.num list) (toSize last) fuel (toSize first)
      (findEntry heap list (toSize first)) = some (passed.map some)

/-- The loops of `LTRIM` over a list in memory fill a new list with these strings. -/
def TrimLoops (heap : ListHeap) (seqs : Sequences) (list : Addr) (first last : Int)
    (kept : List Bss) : Prop :=
  ∀ newList fuel, seqs newList = some [] → heap.num list < fuel →
    ∃ heap' seqs' seq', trimLoop list newList last fuel first heap
        (findEntry heap list (toSize first)) = some heap' ∧
      Represents heap' seqs' ∧ seqs' newList = some seq' ∧ Shows heap' seq' kept

/-- The part of a sequence a range of the code starts at. -/
theorem Stored.split (stored : Stored heap seqs list seq entries) {first : Int}
    (inside : toSize first < entries.length) :
    ∃ front node back, seq = front ++ node :: back ∧ front.length = toSize first ∧
      findEntry heap list (toSize first) = node := by
  have lengths : seq.length = entries.length :=
    (stored.represents.num _ _ stored.found).symm.trans stored.num
  have bound : toSize first < seq.length := by omega
  have cut : seq = seq.take (toSize first) ++ seq[toSize first] :: seq.drop (toSize first + 1) := by
    rw [List.getElem_cons_drop, List.take_append_drop]
  have front : (seq.take (toSize first)).length = toSize first := by
    rw [List.length_take, Nat.min_eq_left (Nat.le_of_lt bound)]
  have ring := stored.represents.ring _ _ stored.found
  rw [cut] at ring
  have found := findEntry_eq ring
  rw [front] at found
  exact ⟨_, _, _, cut, front, found⟩

theorem Shows.part (shows : Shows heap seq entries) (skipped count : Nat) :
    Shows heap ((seq.drop skipped).take count) ((entries.drop skipped).take count) := by
  rw [Shows] at shows ⊢
  rw [List.map_take, List.map_drop, shows, List.map_take, List.map_drop]

/-- A range that is not empty has an end, and its offsets are numbers of the list. -/
theorem toSize_range {first last : Int} {length : Nat} (nonnegative : 0 ≤ first)
    (small : last < 2 ^ 63) (range : ¬ emptyRange first last length) :
    toSize first = first.toNat ∧ toSize last = last.toNat ∧ first ≤ last ∧
      first.toNat < length := by
  obtain ⟨ordered, inside⟩ := not_or.mp range
  have firstSize : toSize first = first.toNat := toSize_of_nonneg nonnegative (by omega)
  have lastSize : toSize last = last.toNat := toSize_of_nonneg (by omega) (by omega)
  exact ⟨firstSize, lastSize, by omega, by omega⟩

theorem Stored.rangeLoops (stored : Stored heap seqs list seq entries) {first last : Int}
    (nonnegative : 0 ≤ first) (small : last < 2 ^ 63)
    (range : ¬ emptyRange first last entries.length) :
    RangeLoops heap list first last (sublist entries first last) := by
  intro fuel enough
  obtain ⟨firstSize, lastSize, ordered, inside⟩ := toSize_range nonnegative small range
  obtain ⟨front, node, back, rfl, front_length, found⟩ := stored.split (firstSize ▸ inside)
  have ring := stored.represents.ring _ _ stored.found
  have size := stored.represents.num _ _ stored.found
  have few : (node :: back).length < fuel := by
    rw [size, List.length_append] at enough
    omega
  have collected := @collect_eq heap list front (node :: back) (toSize last) _ fuel ring size few
  have rest : (front ++ node :: back).drop first.toNat = node :: back := by
    rw [← firstSize, ← front_length, List.drop_left]
  have shown := stored.shows.part first.toNat (last - first + 1).toNat
  have count : toSize last + 1 - front.length = (last - first + 1).toNat := by omega
  rw [rest, Shows] at shown
  rw [found, ← front_length]
  rw [count, shown] at collected
  exact collected

theorem Stored.trimLoops (stored : Stored heap seqs list seq entries) {first last : Int}
    (nonnegative : 0 ≤ first) (small : last < 2 ^ 63)
    (range : ¬ emptyRange first last entries.length) :
    TrimLoops heap seqs list first last (sublist entries first last) := by
  intro newList fuel empty enough
  obtain ⟨firstSize, lastSize, ordered, inside⟩ := toSize_range nonnegative small range
  obtain ⟨front, node, back, rfl, front_length, found⟩ := stored.split (firstSize ▸ inside)
  have size := stored.represents.num _ _ stored.found
  have apart : newList ≠ list := by
    rintro rfl
    rw [stored.found, Option.some.injEq] at empty
    exact List.append_ne_nil_of_right_ne_nil _ (List.cons_ne_nil _ _) empty
  have few : back.length + 1 < fuel := by
    rw [size, List.length_append, List.length_cons] at enough
    omega
  obtain ⟨heap', seqs', ran, represents, filled, vals⟩ :=
    trimLoop_eq stored.represents stored.found empty apart ordered few
  have rest : (front ++ node :: back).drop first.toNat = node :: back := by
    rw [← firstSize, ← front_length, List.drop_left]
  have shown := stored.shows.part first.toNat (last - first + 1).toNat
  rw [rest, Shows, ← vals] at shown
  rw [List.nil_append] at filled
  rw [found]
  exact ⟨heap', seqs', _, ran, represents, filled, shown⟩

/-! ### The commands -/

/-- A command passes these strings to `addto_reply_arr` and encodes the array. -/
def Passes (env : Env) (dict : Dict Obj) (run : Run Obj) (passed : List Bss) : Prop :=
  run = fillReply env dict fun sh =>
    (addAll sh (passed.map fun entry => ⟨some entry, strNormal⟩), 0)

/-- What a command leaves in the reply state, and what it returns. -/
def gives (run : Run Obj) (sh : Shared) : Except Stop (Shared × Int) :=
  (run sh).map fun result => (result.sh, result.ret)

/-- Two commands that pass the same strings give the same. -/
theorem Passes.gives_eq {env : Env} {dict dict' : Dict Obj} {run run' : Run Obj}
    {passed : List Bss} (passes : Passes env dict run passed)
    (passes' : Passes env dict' run' passed) (sh : Shared) : gives run sh = gives run' sh := by
  rw [Passes] at passes passes'
  rw [passes, passes']
  simp only [gives, fillReply, ne_eq, not_true_eq_false, if_false, arrReply, arrayReply]
  cases createArrReply env (addAll (resetReplyArr sh)
    (passed.map fun entry => ⟨some entry, strNormal⟩)) rplyArr with
  | error stop => rfl
  | ok built => rfl

variable {env : Env} {dict : Dict Obj} {key first last : Bss} {a b : Int}

theorem isInt64_of_number (number : bss2int first = (a, 0)) : IsInt64 a := by
  have inRange := isInt64_bss2int first
  rwa [number] at inRange

theorem lrange_passes (firstNumber : bss2int first = (a, 0)) (lastNumber : bss2int last = (b, 0))
    (small : entries.length < 2 ^ 63) (answer : dictLookUp dict key = some (.list entries)) :
    Passes env dict (lrangeCommand env dict [key, first, last]) (slice entries a b) := by
  have firstRange := isInt64_of_number firstNumber
  have lastRange := isInt64_of_number lastNumber
  rw [Passes, slice_eq_sublist firstRange lastRange small]
  simp only [lrangeCommand, firstNumber, lastNumber, answer, ne_eq, not_true_eq_false, or_self,
    if_false]
  split
  · rfl
  · rfl

/-- The key of a list after `LTRIM`. -/
def trimmed (dict : Dict Obj) (key : Bss) (kept : List Bss) : Dict Obj :=
  if kept = [] then (dictRm dict key).1 else dictSetVal dict key (.list kept)

theorem lookUp_trimmed (placed : dict.Placed) (short : key.Short)
    (answer : dictLookUp dict key = some (.list entries)) (kept : List Bss) :
    dictLookUp (trimmed dict key kept) key = if kept = [] then none else some (.list kept) := by
  rw [trimmed]
  split
  · rw [dictRm_fst]
    exact lookUp_dictRmNf_self placed short
  · exact lookUp_dictSetVal_self placed.sized answer _

theorem rangeStart_nonneg (offset : Int) (length : Nat) : 0 ≤ rangeStart offset length := by
  rw [rangeStart]
  split <;> omega

theorem ltrim_trims (firstNumber : bss2int first = (a, 0)) (lastNumber : bss2int last = (b, 0))
    (small : entries.length < 2 ^ 63) (answer : dictLookUp dict key = some (.list entries)) :
    ltrimCommand dict [key, first, last] = okReply (trimmed dict key (slice entries a b)) := by
  have firstRange := isInt64_of_number firstNumber
  have lastRange := isInt64_of_number lastNumber
  rw [trimmed, slice_eq_sublist firstRange lastRange small]
  simp only [ltrimCommand, firstNumber, lastNumber, answer, ne_eq, not_true_eq_false, or_self,
    if_false]
  split
  · rw [if_pos rfl]
  · rename_i range
    rw [if_neg (sublist_ne_nil firstRange.2 range)]

theorem lrange_absent (firstNumber : bss2int first = (a, 0)) (lastNumber : bss2int last = (b, 0))
    (absent : dictLookUp dict key = none) :
    Passes env dict (lrangeCommand env dict [key, first, last]) [] := by
  rw [Passes]
  simp only [lrangeCommand, firstNumber, lastNumber, absent, ne_eq, not_true_eq_false, or_self,
    if_false]
  rfl

/-- `LRANGE` passes the slice of the list between its two offsets; `LTRIM` leaves exactly this slice
under the key, or no key if it is empty; and `LRANGE` of the whole list then gives what the range
gave before. The loops of both commands over the list in memory read, and move, that slice. -/
theorem ranges_agree (env : Env) (placed : dict.Placed) (short : key.Short)
    (stored : Stored heap seqs list seq entries)
    (answer : dictLookUp dict key = some (.list entries))
    (firstNumber : bss2int first = (a, 0)) (lastNumber : bss2int last = (b, 0)) :
    Passes env dict (lrangeCommand env dict [key, first, last]) (slice entries a b) ∧
    (∃ dict', ltrimCommand dict [key, first, last] = okReply dict' ∧
      (dictLookUp dict' key =
        if slice entries a b = [] then none else some (.list (slice entries a b))) ∧
      ∀ zero minusOne, bss2int zero = (0, 0) → bss2int minusOne = (-1, 0) → ∀ sh,
        gives (lrangeCommand env dict' [key, zero, minusOne]) sh =
          gives (lrangeCommand env dict [key, first, last]) sh) ∧
    (slice entries a b ≠ [] →
      RangeLoops heap list (rangeStart a (heap.num list)) (fromEnd b (heap.num list))
        (slice entries a b) ∧
      TrimLoops heap seqs list (rangeStart a (heap.num list)) (fromEnd b (heap.num list))
        (slice entries a b)) := by
  have small := stored.small
  have passes := @lrange_passes entries env _ _ _ _ _ _ firstNumber lastNumber small answer
  have found := lookUp_trimmed placed short answer (slice entries a b)
  refine ⟨passes, ⟨trimmed dict key (slice entries a b),
    ltrim_trims firstNumber lastNumber small answer, found,
    fun zero minusOne zeroNumber minusOneNumber sh => ?_⟩, fun nonempty => ?_⟩
  · split at found
    · rename_i empty
      rw [empty] at passes
      exact (lrange_absent zeroNumber minusOneNumber found).gives_eq passes sh
    · have fewer := Nat.lt_of_le_of_lt (length_slice_le entries a b) small
      have again := @lrange_passes _ env _ _ _ _ _ _ zeroNumber minusOneNumber fewer found
      rw [slice_all] at again
      exact again.gives_eq passes sh
  · have firstRange := isInt64_of_number firstNumber
    have lastRange := isInt64_of_number lastNumber
    have below := normalize_lt lastRange small
    rw [← fromEnd_eq lastRange small] at below
    rw [slice_eq_sublist firstRange lastRange small] at nonempty ⊢
    have range : ¬ emptyRange (rangeStart a entries.length) (fromEnd b entries.length)
        entries.length := fun empty => nonempty (if_pos empty)
    rw [if_neg range, stored.num]
    exact ⟨stored.rangeLoops (rangeStart_nonneg _ _) below range,
      stored.trimLoops (rangeStart_nonneg _ _) below range⟩

/-- A list whose only entry holds `x`. -/
def oneString (list entry : Addr) : ListHeap :=
  listInsertBack (listCreateEntry (listCreate emptyHeap list) entry (textArg 2 "x")) list entry

theorem oneString_stored : ∃ seqs, Stored (oneString 16 32) seqs 16 [32] [textArg 2 "x"] := by
  have created := ListRun.step (.create 16) (.start emptyHeap) rfl
  have allocated := ListRun.step (.createEntry 32 (textArg 2 "x")) created rfl
  have inserted := ListRun.step (.insertBack 16 32) allocated
    ⟨Option.some_ne_none _, rfl, @Represents.loose _ _ created.represents 32 rfl⟩
  refine ⟨_, inserted.represents, rfl, rfl, fun node member => ?_⟩
  rw [List.mem_singleton.mp member]
  exact ⟨2, rfl⟩

/-- What `RPUSH b x y z` puts under `b`. -/
def threeEntries : List Bss := [textArg 2 "x", textArg 3 "y", textArg 4 "z"]

/-- The key space after it. -/
def threeKey : Dict Obj := dictAdd (dictCreate initDictSize) (textArg 1 "b") (.list threeEntries)

theorem threeKey_reachable : Reachable (fun _ _ => True) threeKey := by
  have ran : (textCall .rpush [(1, "b"), (2, "x"), (3, "y"), (4, "z")] (by decide)).run
      (dictCreate initDictSize) (Shared.holding []) =
        .ok ⟨threeKey, (createIntReply (Shared.holding []) 3).1, 0⟩ := rfl
  exact .step _ .start trivial ran

theorem threeKey_placed : threeKey.Placed :=
  (threeKey_reachable.sound (E := True) fun _ _ _ _ => trivial).placed

/-- The memory of such a list. -/
theorem threeEntries_stored : ∃ heap seqs, Stored heap seqs 16 [32, 48, 64] threeEntries := by
  have created := ListRun.step (.create 16) (.start emptyHeap) rfl
  have first := ListRun.step (.createEntry 32 (textArg 2 "x")) created rfl
  have one := ListRun.step (.insertBack 16 32) first
    ⟨Option.some_ne_none _, rfl, @Represents.loose _ _ created.represents 32 rfl⟩
  have second := ListRun.step (.createEntry 48 (textArg 3 "y")) one rfl
  have two := ListRun.step (.insertBack 16 48) second
    ⟨Option.some_ne_none _, rfl, @Represents.loose _ _ one.represents 48 rfl⟩
  have third := ListRun.step (.createEntry 64 (textArg 4 "z")) two rfl
  have three := ListRun.step (.insertBack 16 64) third
    ⟨Option.some_ne_none _, rfl, @Represents.loose _ _ two.represents 64 rfl⟩
  refine ⟨_, _, three.represents, rfl, rfl, ?_⟩
  simp only [List.forall_mem_cons]
  exact ⟨⟨2, rfl⟩, ⟨3, rfl⟩, ⟨4, rfl⟩, fun node member => by cases member⟩

/-- After `RPUSH b x y z`, the commands agree on the range from 1 to -1. -/
theorem ranges_agree_three :
    Passes Env.plain threeKey (lrangeCommand Env.plain threeKey
        [textArg 5 "b", textArg 6 "1", textArg 7 "-1"]) [textArg 3 "y", textArg 4 "z"] ∧
      ∃ dict', ltrimCommand threeKey [textArg 5 "b", textArg 6 "1", textArg 7 "-1"] =
          okReply dict' ∧
        dictLookUp dict' (textArg 5 "b") = some (.list [textArg 3 "y", textArg 4 "z"]) := by
  obtain ⟨heap, seqs, stored⟩ := threeEntries_stored
  have short : (textArg 5 "b").Short := (textArg_arg _ (by decide)).short
  obtain ⟨passes, ⟨dict', trims, kept, -⟩, -⟩ := @ranges_agree _ _ _ _ _ threeKey _ (textArg 6 "1")
    (textArg 7 "-1") 1 (-1) Env.plain threeKey_placed short stored rfl rfl rfl
  exact ⟨passes, dict', trims, kept⟩

end PseudoRedis
