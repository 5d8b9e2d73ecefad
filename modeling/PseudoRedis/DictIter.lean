/-
This file is the rule for `dict_iter` over the pointers. A callback may remove the entry it
is called with, and no other; then the loop, which reads the next pointer before the call,
visits the entries of the start in order. The rule carries any invariant that speaks of the
entries visited so far.

A callback that only reads runs as over the list of entries, so this iteration refines the
one of `Dict`. So does the one of `SINTER`, whose callback removes entries of the set that
is walked.
-/

import PseudoRedis.DictUnlink
import PseudoRedis.SetAlgebra

namespace PseudoRedis

variable {V State : Type} {placed : Placement V}

/-! ### The rule -/

/-- What a callback may do to the placement at the entry it is called with. -/
def Placement.Step (placed placed' : Placement V) (addr : Addr) : Prop :=
  placed' = placed ∨ placed' = placed.without addr

theorem Placement.Step.eq_of_apart {placed' : Placement V} {addr : Addr}
    (step : placed.Step placed' addr) {index : Nat} (apart : ∀ spot ∈ placed index, spot.1 ≠ addr) :
    placed' index = placed index := by
  rcases step with rfl | rfl
  · rfl
  · refine List.filter_eq_self.mpr fun spot member => ?_
    rw [decide_eq_true_iff]
    exact apart spot member

variable [DictVal V]

/-- The entries behind the one of the step stay behind. -/
theorem Placement.Step.rest {heap : DictHeap V} {placed' : Placement V} {spot : Addr × DictEntry V}
    {done todo : List (Addr × DictEntry V)} {index : Nat} (step : placed.Step placed' spot.1)
    (laid : heap.Lays placed) (cut : placed index = done ++ spot :: todo) :
    ∃ done', placed' index = done' ++ todo := by
  rcases step with rfl | rfl
  · exact ⟨done ++ [spot], by rw [cut, List.append_assoc, List.singleton_append]⟩
  · exact ⟨done, by rw [← laid.set_eq_without cut, Slots.set_self]⟩

/-- The other slots stay as they are. -/
theorem Placement.Step.others {heap : DictHeap V} {placed' : Placement V}
    {spot : Addr × DictEntry V} {index : Nat} (step : placed.Step placed' spot.1)
    (laid : heap.Lays placed) (member : spot ∈ placed index) :
    ∀ other, other ≠ index → placed' other = placed other := by
  refine fun other different => step.eq_of_apart fun another inside same => different ?_
  exact laid.slot_eq inside member same

section Rule

variable {func : DictHeap.Callback V State}
  {Inv : List (Addr × DictEntry V) → DictHeap V → Placement V → State → Int → Prop}

/-- At an entry that is placed the callback returns, with at most that entry removed, and the
invariant holds of one visited entry more. -/
def Preserves (func : DictHeap.Callback V State)
    (Inv : List (Addr × DictEntry V) → DictHeap V → Placement V → State → Int → Prop) : Prop :=
  ∀ visited spot index (heap : DictHeap V) placed state, heap.Lays placed →
    spot ∈ placed index → Inv visited heap placed state 0 →
    ∃ heap' placed' state' ret, func ⟨some spot.1, none⟩ heap state = .ok (heap', state', ret) ∧
      heap'.Lays placed' ∧ heap'.power = heap.power ∧ placed.Step placed' spot.1 ∧
      Inv (visited ++ [spot]) heap' placed' state' ret

/-- One round of the inner loop. The link was read before the call. -/
theorem iterChain_round {heap heap' : DictHeap V} {spot : Addr × DictEntry V} {state state' : State}
    {ret : Int} (holds : heap.Holds spot)
    (called : func ⟨some spot.1, none⟩ heap state = .ok (heap', state', ret)) (fuel : Nat) :
    DictHeap.iterChain func (fuel + 1) ⟨some spot.1, none⟩ heap state =
      if ret ≠ 0 then .ok (heap', state', ret)
      else DictHeap.iterChain func fuel ⟨heap.next spot.1, none⟩ heap' state' := by
  obtain ⟨key, val, fields, -⟩ := holds
  have cell := DictHeap.entry_of_fields fields
  simp only [DictHeap.iterChain, cell, load, bind, Except.bind, called, DictHeap.nextPrev]
  rfl

/-- The loop over the rest of a chain. -/
theorem iterChain_rule (preserves : Preserves func Inv)
    (done todo visited : List (Addr × DictEntry V)) {index fuel : Nat} {heap : DictHeap V}
    {placed : Placement V} {state : State} (enough : todo.length < fuel) (laid : heap.Lays placed)
    (cut : placed index = done ++ todo) (start : Inv visited heap placed state 0) :
    ∃ heap' placed' state' ret front later, todo = front ++ later ∧
      DictHeap.iterChain func fuel ⟨headAddr todo, none⟩ heap state = .ok (heap', state', ret) ∧
      heap'.Lays placed' ∧ heap'.power = heap.power ∧
      (∀ other, other ≠ index → placed' other = placed other) ∧
      Inv (visited ++ front) heap' placed' state' ret ∧ (ret = 0 → later = []) := by
  induction todo generalizing done visited fuel heap placed state with
  | nil =>
    refine ⟨heap, placed, state, 0, [], [], rfl, ?_, laid, rfl, fun _ _ => rfl, ?_, fun _ => rfl⟩
    · rw [headAddr, List.head?_nil, Option.map_none, DictHeap.iterChain]
    · rwa [List.append_nil]
  | cons spot todo inductionHypothesis =>
    obtain ⟨fuel, rfl⟩ : ∃ less, fuel = less + 1 :=
      Nat.exists_eq_add_one_of_ne_zero (Nat.ne_of_gt (Nat.zero_lt_of_lt enough))
    have member : spot ∈ placed index := cut ▸ List.mem_append_right _ List.mem_cons_self
    -- the next pointer is read before the callback has a chance to remove the entry
    have next : heap.next spot.1 = headAddr todo := laid.next_eq cut
    obtain ⟨heap', placed', state', ret, called, laid', power, step, kept⟩ :=
      preserves visited spot index heap placed state laid member start
    have others := step.others laid member
    have round : DictHeap.iterChain func (fuel + 1) ⟨headAddr (spot :: todo), none⟩ heap state =
        if ret ≠ 0 then .ok (heap', state', ret)
        else DictHeap.iterChain func fuel ⟨headAddr todo, none⟩ heap' state' := by
      rw [← next]
      exact iterChain_round (laid.holds index spot member) called fuel
    rw [round]
    by_cases stop : ret = 0
    · subst stop
      obtain ⟨done', cut'⟩ := step.rest laid cut
      obtain ⟨heap'', placed'', state'', ret, front, later, rfl, run, laid'', power', others',
        kept', all⟩ := inductionHypothesis done' (visited ++ [spot])
          (Nat.lt_of_succ_lt_succ enough) laid' cut' kept
      refine ⟨heap'', placed'', state'', ret, spot :: front, later, rfl,
        (if_neg (not_not.mpr rfl)).trans run, laid'', power'.trans power,
        fun other different => ?_, ?_, all⟩
      · rw [others' other different, others other different]
      · rwa [List.append_assoc, List.singleton_append] at kept'
    · exact ⟨heap', placed', state', ret, [spot], todo, rfl, if_pos stop, laid', power, others,
        kept, fun none => absurd none stop⟩

/-- One round of the outer loop. -/
theorem iterSlots_round {heap heap' : DictHeap V} {state state' : State} {ret : Int}
    {index : Nat} (laid : heap.Lays placed)
    (run : DictHeap.iterChain func chainBound ⟨headAddr (placed index), none⟩ heap state =
      .ok (heap', state', ret)) (left : Nat) :
    DictHeap.iterSlots func (left + 1) index heap state =
      if ret ≠ 0 then .ok (heap', state', ret)
      else DictHeap.iterSlots func left (index + 1) heap' state' := by
  have first := (laid.chains index).start_eq
  rw [List.head?_map] at first
  rw [headAddr, ← first] at run
  simp only [DictHeap.iterSlots, bind, Except.bind, run]
  rfl

/-- The loop over the rest of the slots. -/
theorem iterSlots_rule (preserves : Preserves func Inv) (left : Nat) {index : Nat}
    (visited : List (Addr × DictEntry V)) {heap : DictHeap V} {placed : Placement V} {state : State}
    (laid : heap.Lays placed) (start : Inv visited heap placed state 0) :
    ∃ heap' placed' state' ret front later,
      Slots.piece placed index (index + left) = front ++ later ∧
      DictHeap.iterSlots func left index heap state = .ok (heap', state', ret) ∧
      heap'.Lays placed' ∧ heap'.power = heap.power ∧
      Inv (visited ++ front) heap' placed' state' ret ∧ (ret = 0 → later = []) := by
  induction left generalizing index visited heap placed state with
  | zero =>
    refine ⟨heap, placed, state, 0, [], [], ?_, rfl, laid, rfl, ?_, fun _ => rfl⟩
    · exact Slots.piece_self placed index
    · rwa [List.append_nil]
  | succ left inductionHypothesis =>
    obtain ⟨heap', placed', state', ret, front, later, cut, run, laid', power, others, kept, all⟩ :=
      iterChain_rule preserves [] (placed index) visited (laid.length_lt index) laid rfl start
    rw [iterSlots_round laid run]
    have whole : Slots.piece placed index (index + (left + 1)) =
        front ++ later ++ Slots.piece placed' (index + 1) (index + 1 + left) := by
      rw [Slots.piece_cons placed (Nat.lt_add_of_pos_right (Nat.succ_pos left)), cut,
        Nat.add_right_comm index 1 left]
      refine congrArg _ (Slots.piece_congr fun other after => ?_).symm
      exact others other (Nat.ne_of_gt after)
    by_cases stop : ret = 0
    · subst stop
      obtain rfl := all rfl
      obtain ⟨heap'', placed'', state'', ret, front', later, rest, run', laid'', power', kept',
        all'⟩ := @inductionHypothesis (index + 1) (visited ++ front) heap' placed' state' laid' kept
      refine ⟨heap'', placed'', state'', ret, front ++ front', later, ?_,
        (if_neg (not_not.mpr rfl)).trans run', laid'', power'.trans power, ?_, all'⟩
      · rw [whole, rest, List.append_nil, List.append_assoc]
      · rwa [List.append_assoc] at kept'
    · refine ⟨heap', placed', state', ret, front,
        later ++ Slots.piece placed' (index + 1) (index + 1 + left), ?_, if_pos stop, laid', power,
        kept, fun none => absurd none stop⟩
      rw [whole, List.append_assoc]

/-- The rule for `dict_iter`: an invariant of the visited entries that holds before the first call
and that every call preserves holds at the end, of all entries if the answer is zero. -/
theorem dictIter_rule (preserves : Preserves func Inv) {heap : DictHeap V} {placed : Placement V}
    {state : State} (laid : heap.Lays placed) (start : Inv [] heap placed state 0) :
    ∃ heap' placed' state' ret visited later,
      Slots.contents placed (pwr2size heap.power).toNat = visited ++ later ∧
      heap.dictIter func state = .ok (heap', state', ret) ∧ heap'.Lays placed' ∧
      heap'.power = heap.power ∧ Inv visited heap' placed' state' ret ∧ (ret = 0 → later = []) := by
  obtain ⟨heap', placed', state', ret, visited, later, whole, run, rest⟩ :=
    @iterSlots_rule _ _ _ func Inv preserves (pwr2size heap.power).toNat 0 [] heap placed state laid
      start
  rw [Nat.zero_add] at whole
  exact ⟨heap', placed', state', ret, visited, later,
    (Slots.contents_eq_piece placed _).trans whole, run, rest⟩

end Rule

/-! ### What the iteration refines -/

/-- A callback that reads its entry and leaves the memory alone runs over the list of entries. -/
theorem dictIter_reads {heap : DictHeap V} {placed : Placement V} (laid : heap.Lays placed)
    {callback : DictHeap.Callback V State} {func : DictEntry V → State → State × Int}
    (reads : ∀ spot prev (heap : DictHeap V) state, heap.Holds spot →
      callback ⟨some spot.1, prev⟩ heap state = .ok (heap, func spot.2 state)) (state : State) :
    heap.dictIter callback state = .ok (heap, dictIter (heap.dict placed) func state) := by
  have preserves : Preserves callback fun visited current placed' state' ret =>
      current = heap ∧ placed' = placed ∧ ∀ later,
        iterList func ((visited ++ later).map Prod.snd) state =
          if ret ≠ 0 then (state', ret) else iterList func (later.map Prod.snd) state' := by
    rintro visited spot index current placed' state' - member ⟨rfl, rfl, sofar⟩
    refine ⟨current, placed', (func spot.2 state').1, (func spot.2 state').2,
      reads spot none current state' (laid.holds index spot member), laid, rfl, Or.inl rfl, rfl,
      rfl, fun later => ?_⟩
    have step := sofar (spot :: later)
    rw [List.append_assoc, List.singleton_append, step, if_neg (not_not.mpr rfl), List.map_cons,
      iterList]
  obtain ⟨heap', placed', state', ret, visited, later, cut, run, -, -, ⟨rfl, rfl, sofar⟩, all⟩ :=
    dictIter_rule preserves laid ⟨rfl, rfl, fun later => (if_neg (not_not.mpr rfl)).symm⟩
  rw [run, dictIter, DictHeap.entries_dict, cut, sofar later]
  split
  · rfl
  · rename_i stop
    rw [all (not_not.mp stop), List.map_nil, iterList, not_not.mp stop]

/-- The callback of `SINTER`, called with the entries of the set it removes from. -/
def DictHeap.dictInterCallback (other : Dict Unit) : DictHeap.Callback Unit Unit :=
  fun iter heap _ => do
    let curr ← deref iter.curr
    let cell ← load (heap.entry curr)
    let name ← load (heap.key cell.key)
    if dictLookUp other name = none then
      let (heap, _) ← heap.dictRmNf cell.key
      return (heap, (), 0)
    else
      return (heap, (), 0)

/-- Walking a set while its entries are removed leaves what a walk over its first entries does. -/
theorem dictIter_interCallback {heap : DictHeap Unit} {placed : Placement Unit}
    (laid : heap.Lays placed) (other : Dict Unit) :
    ∃ heap' placed', heap.dictIter (DictHeap.dictInterCallback other) () = .ok (heap', (), 0) ∧
      heap'.Lays placed' ∧
      heap'.dict placed' =
        iterSet (heap.dict placed) (dictInterCallback other) (heap.dict placed) := by
  have preserves : Preserves (DictHeap.dictInterCallback other)
      fun visited current placed' _ ret => ret = 0 ∧ current.dict placed' =
        (visited.map Prod.snd).foldl (dictInterCallback other) (heap.dict placed) := by
    rintro visited spot index current placed' _ laid' member ⟨-, sofar⟩
    obtain ⟨key, val, fields, held, -⟩ := laid'.holds index spot member
    have cell := DictHeap.entry_of_fields fields
    have step (set : Dict Unit) : ((visited ++ [spot]).map Prod.snd).foldl
        (dictInterCallback other) set = dictInterCallback other
          ((visited.map Prod.snd).foldl (dictInterCallback other) set) spot.2 := by
      rw [List.map_append, List.foldl_append]
      rfl
    cases found : dictLookUp other spot.2.key with
    | none =>
      obtain ⟨heap', prev, run, relinked, laid'', same⟩ := dictRmNf_own laid' member fields
      refine ⟨heap', placed'.without spot.1, (), 0, ?_, laid'', relinked.power, Or.inr rfl, rfl, ?_⟩
      · simp only [DictHeap.dictInterCallback, deref, cell, load, bind, Except.bind, held, found,
          if_true, run]
        rfl
      · rw [step, ← sofar, same]
        simp only [dictInterCallback, found]
    | some val =>
      refine ⟨current, placed', (), 0, ?_, laid', rfl, Or.inl rfl, rfl, ?_⟩
      · simp only [DictHeap.dictInterCallback, deref, cell, load, bind, Except.bind, held, found,
          reduceCtorEq, if_false]
        rfl
      · rw [step, ← sofar]
        simp only [dictInterCallback, found]
  obtain ⟨heap', placed', _, ret, visited, later, cut, run, laid', -, ⟨rfl, same⟩, all⟩ :=
    dictIter_rule preserves laid ⟨rfl, rfl⟩
  refine ⟨heap', placed', run, laid', ?_⟩
  rw [iterSet_eq, DictHeap.entries_dict, cut, all rfl, List.append_nil, same]

end PseudoRedis
