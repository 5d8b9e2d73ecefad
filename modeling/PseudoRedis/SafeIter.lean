/-
This file proves that `dict_iter` is safe against callbacks that remove the entry they are
called with, by `dict_rm` or by `dict_rm_nf`. The loop saves the next pointer before the
call, and no such callback releases or unlinks the entry it points to.

The rule `dictIter_rule` is an induction over the slots and the chains, for any invariant
that speaks of the entries visited so far. The log of a run is such an invariant: the calls
are the entries of the start in order, up to the first call that returned something other
than zero, and what is laid out in the end is what the log has not removed.
-/

import PseudoRedis.DictIter

namespace PseudoRedis

variable {V State : Type} {heap : DictHeap V} {placed : Placement V} {spot : Addr × DictEntry V}

/-! ### Callbacks that remove their entry -/

/-- A callback that computes its data, its answer and what becomes of its entry from all it can
see, and then removes the entry or leaves it. -/
def deleting (choose : EntryIter → DictHeap V → State → State × Deletion × Int) :
    DictHeap.Callback V State :=
  fun iter heap state => do
    let (state, deletion, ret) := choose iter heap state
    let heap ← heap.delete iter deletion
    return (heap, state, ret)

/-! ### The log of a run -/

/-- One call of a callback. -/
structure EntryCall where
  curr : Option Addr
  deletion : Deletion
  ret : Int

/-- The callback that writes down its calls. -/
def logged (choose : EntryIter → DictHeap V → State → State × Deletion × Int) :
    EntryIter → DictHeap V → State × List EntryCall → (State × List EntryCall) × Deletion × Int :=
  fun iter heap data =>
    let (state, deletion, ret) := choose iter heap data.1
    ((state, data.2 ++ [⟨iter.curr, deletion, ret⟩]), deletion, ret)

/-- Whether a call removed the entry at an address. -/
def removedBy (log : List EntryCall) (addr : Addr) : Bool :=
  log.any fun call => call.curr = some addr && call.deletion ≠ .keep

/-- The placement without the entries that were removed. -/
def Placement.remaining (placed : Placement V) (log : List EntryCall) : Placement V :=
  fun index => (placed index).filter fun spot => !removedBy log spot.1

theorem removedBy_concat (log : List EntryCall) (addr other : Addr) (deletion : Deletion)
    (ret : Int) :
    removedBy (log ++ [⟨some addr, deletion, ret⟩]) other =
      (removedBy log other || (decide (addr = other) && decide (deletion ≠ .keep))) := by
  rw [removedBy, List.any_append, List.any_cons, List.any_nil, Bool.or_false]
  simp only [Option.some.injEq]
  rfl

theorem Placement.remaining_nil (placed : Placement V) : placed.remaining [] = placed := by
  funext index
  exact List.filter_eq_self.mpr fun _ _ => rfl

theorem Placement.remaining_concat (placed : Placement V) (log : List EntryCall) (addr : Addr)
    (deletion : Deletion) (ret : Int) :
    placed.remaining (log ++ [⟨some addr, deletion, ret⟩]) =
      (placed.remaining log).after addr deletion := by
  have removes (gone : deletion ≠ .keep) : placed.remaining
      (log ++ [⟨some addr, deletion, ret⟩]) = (placed.remaining log).without addr := by
    funext index
    rw [Placement.without, Placement.remaining, Placement.remaining, List.filter_filter]
    refine List.filter_congr fun spot _ => ?_
    rw [removedBy_concat, decide_eq_true gone, Bool.and_true, Bool.not_or, Bool.and_comm,
      ← decide_not, decide_eq_decide.mpr ne_comm]
  cases deletion with
  | keep =>
    funext index
    refine List.filter_congr fun spot _ => ?_
    rw [removedBy_concat]
    simp only [ne_eq, not_true_eq_false, decide_false, Bool.and_false, Bool.or_false]
  | rmNf => exact removes (by decide)
  | rm => exact removes (by decide)

/-- The invariant of a run: the log has the visited entries in order, every call but the last
returned zero, and what was not removed is laid out. -/
structure Logged (choose : EntryIter → DictHeap V → State → State × Deletion × Int)
    (start : Placement V) (visited : List (Addr × DictEntry V)) (placed : Placement V)
    (log : List EntryCall) (ret : Int) : Prop where
  calls : log.map EntryCall.curr = visited.map fun spot => some spot.1
  remaining : placed = start.remaining log
  zero : ∀ call ∈ log.dropLast, call.ret = 0
  last : (log.getLast?.map EntryCall.ret).getD 0 = ret
  always : (∀ iter heap state, (choose iter heap state).2.2 = 0) → ret = 0

variable {choose : EntryIter → DictHeap V → State → State × Deletion × Int}

/-- A log whose last call returned zero has no other answers. -/
theorem Logged.all_zero {start : Placement V} {visited : List (Addr × DictEntry V)}
    {log : List EntryCall} (invariant : Logged choose start visited placed log 0) :
    ∀ call ∈ log, call.ret = 0 := by
  intro call member
  have zero := invariant.zero
  have last := invariant.last
  rcases List.eq_nil_or_concat log with rfl | ⟨earlier, final, rfl⟩
  · cases member
  · rw [List.concat_eq_append] at zero last member
    rw [List.dropLast_concat] at zero
    rw [List.getLast?_concat] at last
    rcases List.mem_append.mp member with before | same
    · exact zero call before
    · rw [List.mem_singleton.mp same]
      exact last

/-- One call more. -/
theorem Logged.step {start : Placement V} {visited : List (Addr × DictEntry V)}
    {log : List EntryCall} (invariant : Logged choose start visited placed log 0) (iter : EntryIter)
    (curr : iter.curr = some spot.1) (heap : DictHeap V) (state : State) :
    Logged choose start (visited ++ [spot])
      (placed.after spot.1 (choose iter heap state).2.1)
      (log ++ [⟨iter.curr, (choose iter heap state).2.1, (choose iter heap state).2.2⟩])
      (choose iter heap state).2.2 := by
  refine ⟨?_, ?_, ?_, ?_, fun zero => zero iter heap state⟩
  · rw [List.map_append, List.map_append, invariant.calls, List.map_singleton, List.map_singleton,
      curr]
  · rw [curr, Placement.remaining_concat, ← invariant.remaining]
  · rw [List.dropLast_concat]
    exact invariant.all_zero
  · rw [List.getLast?_concat]
    rfl

theorem Placement.step_after (placed : Placement V) (addr : Addr) (deletion : Deletion) :
    placed.Step (placed.after addr deletion) addr := by
  cases deletion with
  | keep => exact Or.inl rfl
  | rmNf => exact Or.inr rfl
  | rm => exact Or.inr rfl

/-! ### The log changes nothing -/

/-- A run without its log. -/
def forget (run : DictHeap V × (State × List EntryCall) × Int) : DictHeap V × State × Int :=
  (run.1, run.2.1.1, run.2.2)

theorem deleting_logged (choose : EntryIter → DictHeap V → State → State × Deletion × Int)
    (iter : EntryIter) (heap : DictHeap V) (data : State × List EntryCall) :
    (deleting (logged choose) iter heap data).map forget = deleting choose iter heap data.1 := by
  simp only [deleting, logged, bind, Except.bind]
  cases heap.delete iter (choose iter heap data.1).2.1 with
  | error fault => rfl
  | ok heap => rfl

section Forget

variable {func : DictHeap.Callback V State} {func' : DictHeap.Callback V (State × List EntryCall)}

theorem iterChain_forget
    (agree : ∀ iter heap data, (func' iter heap data).map forget = func iter heap data.1)
    (fuel : Nat) (iter : EntryIter) (heap : DictHeap V) (data : State × List EntryCall) :
    (DictHeap.iterChain func' fuel iter heap data).map forget =
      DictHeap.iterChain func fuel iter heap data.1 := by
  induction fuel generalizing iter heap data with
  | zero =>
    obtain ⟨curr, prev⟩ := iter
    cases curr with
    | none => rfl
    | some curr => rfl
  | succ fuel inductionHypothesis =>
    obtain ⟨curr, prev⟩ := iter
    cases curr with
    | none => rfl
    | some curr =>
      simp only [DictHeap.iterChain, bind, Except.bind]
      cases load (heap.entry curr) with
      | error fault => rfl
      | ok cell =>
        simp only [← agree]
        cases func' ⟨some curr, prev⟩ heap data with
        | error fault => rfl
        | ok run =>
          by_cases stop : run.2.2 = 0
          · simp only [Except.map, forget, stop, ne_eq, not_true_eq_false, if_false]
            cases run.1.nextPrev prev with
            | error fault => rfl
            | ok prev => exact inductionHypothesis _ _ _
          · simp only [Except.map, forget, stop, ne_eq, not_false_eq_true, if_true]
            rfl

theorem iterSlots_forget
    (agree : ∀ iter heap data, (func' iter heap data).map forget = func iter heap data.1)
    (left index : Nat) (heap : DictHeap V) (data : State × List EntryCall) :
    (DictHeap.iterSlots func' left index heap data).map forget =
      DictHeap.iterSlots func left index heap data.1 := by
  induction left generalizing index heap data with
  | zero => rfl
  | succ left inductionHypothesis =>
    simp only [DictHeap.iterSlots, bind, Except.bind, ← iterChain_forget agree]
    cases DictHeap.iterChain func' chainBound ⟨heap.hashTbl index, none⟩ heap data with
    | error fault => rfl
    | ok run =>
      by_cases stop : run.2.2 = 0
      · simp only [Except.map, forget, stop, ne_eq, not_true_eq_false, if_false]
        exact inductionHypothesis _ _ _
      · simp only [Except.map, forget, stop, ne_eq, not_false_eq_true, if_true]
        rfl

end Forget

/-! ### Safe iteration -/

variable [DictVal V]

/-- A run keeps its log. -/
theorem preserves_logged (choose : EntryIter → DictHeap V → State → State × Deletion × Int)
    (start : Placement V) :
    Preserves (deleting (logged choose)) fun visited _ placed data ret =>
      Logged choose start visited placed data.2 ret := by
  intro visited spot index heap placed data laid member invariant
  obtain ⟨heap', removed, laid', power, -⟩ :=
    delete_spec laid member none (choose ⟨some spot.1, none⟩ heap data.1).2.1
  refine ⟨heap', placed.after spot.1 (choose ⟨some spot.1, none⟩ heap data.1).2.1,
    (logged choose ⟨some spot.1, none⟩ heap data).1, (choose ⟨some spot.1, none⟩ heap data.1).2.2,
    ?_, laid', power, placed.step_after _ _, invariant.step _ rfl heap data.1⟩
  simp only [deleting, logged, bind, Except.bind, removed]
  rfl

/-- With a callback that removes the entry it is called with or leaves it, `dict_iter` comes to its
end. The calls are the entries of the start, each once and in order, up to the first that returns
something other than zero, which is what the iteration returns; a well-formed dictionary with the
entries that were not removed is left. -/
theorem dict_iter_safe (laid : heap.Lays placed)
    (choose : EntryIter → DictHeap V → State → State × Deletion × Int) (state : State) :
    ∃ heap' state' log ret,
      heap.dictIter (deleting choose) state = .ok (heap', state', ret) ∧
      heap.dictIter (deleting (logged choose)) (state, []) = .ok (heap', (state', log), ret) ∧
      ((Slots.contents placed (pwr2size heap.power).toNat).map Prod.fst).Nodup ∧
      (∃ visited later, Slots.contents placed (pwr2size heap.power).toNat = visited ++ later ∧
        log.map EntryCall.curr = (visited.map fun spot => some spot.1) ∧ (ret = 0 → later = [])) ∧
      (∀ call ∈ log.dropLast, call.ret = 0) ∧ (log.getLast?.map EntryCall.ret).getD 0 = ret ∧
      ((∀ iter heap state, (choose iter heap state).2.2 = 0) → ret = 0) ∧
      heap'.Lays (placed.remaining log) ∧
      (heap'.dict (placed.remaining log)).entries =
        ((Slots.contents placed (pwr2size heap.power).toNat).filter
          fun spot => !removedBy log spot.1).map Prod.snd := by
  have start : Logged choose placed [] placed (state, ([] : List EntryCall)).2 0 :=
    ⟨rfl, placed.remaining_nil.symm, nofun, rfl, fun _ => rfl⟩
  obtain ⟨heap', placed', data, ret, visited, later, cut, run, laid', power, invariant, all⟩ :=
    dictIter_rule (preserves_logged choose placed) laid start
  obtain rfl := invariant.remaining
  have plain := iterSlots_forget (deleting_logged choose) (pwr2size heap.power).toNat 0 heap
    (state, [])
  refine ⟨heap', data.1, data.2, ret, ?_, run, laid.nodup, ⟨visited, later, cut, invariant.calls,
    all⟩, invariant.zero, invariant.last, invariant.always, laid', ?_⟩
  · rw [DictHeap.dictIter] at run
    rw [run] at plain
    exact plain.symm
  · rw [DictHeap.entries_dict, power]
    refine congrArg (List.map Prod.snd) ?_
    exact Slots.contents_filter placed _ _

/-- A one-slot set of two entries in memory. -/
def twoHeap : DictHeap Unit :=
  { entry := fun addr =>
      if addr = address 10 then some ⟨address 20, setValPtr, some (address 11)⟩
      else if addr = address 11 then some ⟨address 21, setValPtr, none⟩ else none
    key := fun addr =>
      if addr = address 20 then some ⟨20, 1, 0, [97, 0]⟩
      else if addr = address 21 then some ⟨21, 1, 0, [98, 0]⟩ else none
    obj := fun _ => none
    hashTbl := fun index => if index = 0 then some (address 10) else none
    power := 0
    entryNum := 2
    bitMask := 0 }

def firstSpot : Addr × DictEntry Unit := (address 10, ⟨⟨20, 1, 0, [97, 0]⟩, ()⟩)

def secondSpot : Addr × DictEntry Unit := (address 11, ⟨⟨21, 1, 0, [98, 0]⟩, ()⟩)

def twoPlaced : Placement Unit := fun index =>
  if index = 0 then [firstSpot, secondSpot] else []

theorem twoPlaced_cases {index : Nat} {spot : Addr × DictEntry Unit}
    (member : spot ∈ twoPlaced index) :
    index = 0 ∧ (spot = firstSpot ∨ spot = secondSpot) := by
  by_cases first : index = 0
  · rw [twoPlaced, if_pos first, List.mem_cons, List.mem_singleton] at member
    exact ⟨first, member⟩
  · rw [twoPlaced, if_neg first] at member
    cases member

theorem two_lays : twoHeap.Lays twoPlaced := by
  refine ⟨fun index => ?_, fun index spot member => ?_, ?_, ⟨⟨⟨?_, ?_⟩, ?_, ?_⟩, ?_⟩⟩
  · by_cases first : index = 0
    · subst first
      exact ⟨rfl, rfl, rfl⟩
    · simp only [twoHeap, twoPlaced, if_neg first]
      rfl
  · obtain ⟨-, rfl | rfl⟩ := twoPlaced_cases member
    · exact ⟨address 20, setValPtr, rfl, rfl, rfl⟩
    · exact ⟨address 21, setValPtr, rfl, rfl, rfl⟩
  · intro index index' spot member other member' key key' val fields fields' plain
    obtain ⟨-, rfl | rfl⟩ := twoPlaced_cases member
    · cases fields
      exact absurd rfl plain
    · cases fields
      exact absurd rfl plain
  · decide
  · decide
  · intro index entry member
    obtain ⟨spot, inSlot, rfl⟩ := List.mem_map.mp member
    obtain ⟨rfl, rfl | rfl⟩ := twoPlaced_cases inSlot
    · exact ⟨by decide, by decide, by decide⟩
    · exact ⟨by decide, by decide, by decide⟩
  · decide
  · decide

/-- The first of two entries is removed and released, the second one stays. -/
theorem dict_iter_safe_two :
    ∃ heap' log,
      twoHeap.dictIter (deleting fun iter _ (_ : Unit) =>
        ((), if iter.curr = some (address 10) then .rm else .keep, 0)) () = .ok (heap', (), 0) ∧
      heap'.Lays (twoPlaced.remaining log) := by
  obtain ⟨heap', state', log, ret, run, -, -, -, -, -, zero, laid, -⟩ :=
    dict_iter_safe two_lays (fun iter _ (_ : Unit) =>
      ((), if iter.curr = some (address 10) then .rm else .keep, 0)) ()
  obtain rfl := zero fun _ _ _ => rfl
  exact ⟨heap', log, run, laid⟩

end PseudoRedis
