/-
This file follows the lists in memory through any history of the handlers that work on them.
Every access of the next call is to something allocated; what it answers and leaves is what the
call means for lists of strings; and memory is always exactly what the lists hold and the entries
`BLPOP` and `BRPOP` have popped, so that no entry is lost when it is removed, moved, trimmed away or
goes with its list, and none but those when it is popped.
-/

import PseudoRedis.ListLoops

namespace PseudoRedis

open Rings Faulting

/-! ### Histories -/

/-- What a handler does with lists, with the addresses `malloc` returns. -/
inductive ListCall where
  | create (list : Addr)
  | destroy (list : Addr)
  | push (side : End) (list entry : Addr) (val : Bss)
  | pop (side : End) (list : Addr)
  | popKept (side : End) (list : Addr) (own : Bool)
  | popPush (src dst : Addr) (room : Bool)
  | moveEnd (source target : End) (src dst : Addr)
  | remove (list : Addr) (target : Int) (bss : Bss)
  | get (list : Addr) (index : Int)
  | set (list : Addr) (index : Int) (val : Bss)
  | range (list : Addr) (offset1 offset2 : Int)
  | trim (list : Addr) (offset1 offset2 : Int) (room : Addr)
  | insert (list : Addr) (pivot val : Bss) (after : Bool) (room : Addr)

/-- What the handler has in hand afterwards. -/
inductive ListAnswer where
  | nothing
  | number (value : Int)
  | string (val : Option Bss)
  | strings (vals : List Bss)
  | list (list : Option Addr)

def ListCall.code : ListCall → ListCode ListAnswer
  | .create list => do
      ListCode.create list
      return .nothing
  | .destroy list => do
      ListCode.destroy list
      return .nothing
  | .push side list entry val => do
      ListCode.push side list entry val
      return .nothing
  | .pop side list => do
      let val ← ListCode.popString side list
      return .string (some val)
  | .popKept side list own => do
      let val ← ListCode.popKept side list own
      return .string (some val)
  | .popPush src dst room => do
      let val ← ListCode.popPush src dst room
      return .string (some val)
  | .moveEnd source target src dst => do
      let ret ← ListCode.moveEnd source target src dst
      return .number ret
  | .remove list target bss => do
      let count ← ListCode.remove list target bss
      return .number count
  | .get list index => do
      let val ← ListCode.lindex list index
      return .string val
  | .set list index val => do
      let found ← ListCode.lset list index val
      return .string (if found then some val else none)
  | .range list offset1 offset2 => do
      let vals ← ListCode.lrange list offset1 offset2
      return .strings vals
  | .trim list offset1 offset2 room => do
      let list ← ListCode.ltrim list offset1 offset2 room
      return .list list
  | .insert list pivot val after room => do
      let num ← ListCode.linsert list pivot val after room
      return .number num

/-- What the handlers see to: a list is the one of its key, which is not empty where something is
popped, and what `malloc` returns was not allocated. An index or a count is an `int` in the loops
that have one. -/
def ListCall.Allowed (heap : ListHeap) (lists : Lists) : ListCall → Prop
  | .create list => heap.live list = false
  | .destroy list => lists list ≠ none
  | .push _ list entry _ => lists list ≠ none ∧ heap.live entry = false
  | .pop _ list | .popKept _ list _ => ∃ entries, lists list = some entries ∧ entries ≠ []
  | .popPush src dst room => ∃ entries val rest, lists src = some entries ∧
      listPop .right entries = some (val, rest) ∧
        if room then heap.live dst = false ∨ dst = src ∧ rest = []
        else Function.update lists src (orNone rest) dst ≠ none
  | .moveEnd _ _ src dst => lists src ≠ none ∧ lists dst ≠ none
  | .remove list _ _ => ∃ entries, lists list = some entries ∧ entries.length < 2 ^ 31
  | .get list index | .set list index _ =>
      ∃ entries, lists list = some entries ∧ entries.length < 2 ^ 31 ∧ IsInt64 index
  | .range list _ offset2 => lists list ≠ none ∧ IsInt64 offset2
  | .trim list _ offset2 room => lists list ≠ none ∧ IsInt64 offset2 ∧ heap.live room = false
  | .insert list _ _ _ room => lists list ≠ none ∧ heap.live room = false

/-- The strings of a list that is there. -/
def stringsAt (lists : Lists) (list : Addr) : List Bss := (lists list).getD []

/-- What a call means for lists of strings: the lists afterwards, and the answer. -/
def ListCall.meaning (lists : Lists) : ListCall → Lists × ListAnswer
  | .create list => (Function.update lists list (some []), .nothing)
  | .destroy list => (Function.update lists list none, .nothing)
  | .push side list _ val =>
      (Function.update lists list (some (listInsert side (stringsAt lists list) val)), .nothing)
  | .pop side list =>
      match listPop side (stringsAt lists list) with
      | none => (lists, .nothing)
      | some (val, rest) => (Function.update lists list (orNone rest), .string (some val))
  | .popKept side list own =>
      match listPop side (stringsAt lists list) with
      | none => (lists, .nothing)
      | some (val, rest) =>
          (Function.update lists list (if own then orNone rest else some rest), .string (some val))
  | .popPush src dst room =>
      match listPop .right (stringsAt lists src) with
      | none => (lists, .nothing)
      | some (val, rest) =>
          let left := Function.update lists src (orNone rest)
          (Function.update left dst (some (val :: if room then [] else stringsAt left dst)),
            .string (some val))
  | .moveEnd source target src dst =>
      match listPop source (stringsAt lists src) with
      | none => (lists, .number ListCode.eEmpty)
      | some (val, rest) =>
          let left := Function.update lists src (some rest)
          (Function.update left dst (some (listInsert target (stringsAt left dst) val)), .number 0)
  | .remove list target bss =>
      (Function.update lists list (orNone (lrem (stringsAt lists list) target bss).1),
        .number (lrem (stringsAt lists list) target bss).2)
  | .get list index =>
      (lists, .string ((listIndex (stringsAt lists list) index).bind fun place =>
        (stringsAt lists list)[place]?))
  | .set list index val =>
      match listIndex (stringsAt lists list) index with
      | none => (lists, .string none)
      | some place =>
          (Function.update lists list (some ((stringsAt lists list).set place val)),
            .string (some val))
  | .range list offset1 offset2 =>
      (lists, .strings ((ranged (stringsAt lists list) offset1 offset2).getD []))
  | .trim list offset1 offset2 room =>
      match ranged (stringsAt lists list) offset1 offset2 with
      | none => (Function.update lists list none, .list none)
      | some kept =>
          (Function.update (Function.update lists list none) room (some kept), .list (some room))
  | .insert list pivot val after _ =>
      match insertAt pivot val after (stringsAt lists list) with
      | none => (lists, .number (-1))
      | some entries => (Function.update lists list (some entries), .number entries.length)

/-- The entries that are in no list after a call: `BLPOP` and `BRPOP` do not release the one they
pop. -/
def lostAfter (heap : ListHeap) (lost : Set Addr) : ListCall → Set Addr
  | .popKept side list _ => insert (heap.walk side list) lost
  | _ => lost

/-- The memories the handlers lead to, with the lists they stand for and the entries that were
lost. -/
inductive ListsRun : ListHeap → Lists → Set Addr → Prop
  | start {heap : ListHeap} (dead : ∀ node, heap.live node = false) :
      ListsRun heap (fun _ => none) ∅
  | step {heap heap' : ListHeap} {lists : Lists} {lost : Set Addr} {answer : ListAnswer}
      (call : ListCall) (before : ListsRun heap lists lost) (allowed : call.Allowed heap lists)
      (ran : Ends call.code heap answer heap') :
      ListsRun heap' (call.meaning lists).1 (lostAfter heap lost call)

variable {heap heap' : ListHeap} {lists : Lists} {lost : Set Addr} {list : Addr}
  {entries : List Bss}

/-! ### One call -/

/-- What a call comes to: it ends with the answer it means, and memory holds the lists it means. -/
def ListCall.Fares (heap : ListHeap) (lists : Lists) (lost : Set Addr) (call : ListCall) : Prop :=
  ∃ heap', Ends call.code heap (call.meaning lists).2 heap' ∧
    Holding heap' (call.meaning lists).1 (lostAfter heap lost call)

theorem stringsAt_eq (present : lists list = some entries) : stringsAt lists list = entries := by
  rw [stringsAt, present, Option.getD_some]

/-- Something is popped from a list that is not empty. -/
theorem exists_listPop (filled : entries ≠ []) (side : End) :
    ∃ val rest, listPop side entries = some (val, rest) := by
  cases popped : listPop side entries with
  | none =>
    cases entries with
    | nil => exact absurd rfl filled
    | cons first rest => cases side <;> cases popped
  | some taken => exact ⟨taken.1, taken.2, rfl⟩

theorem ListCall.pop_fares (holding : Holding heap lists lost) {side : End}
    (allowed : (ListCall.pop side list).Allowed heap lists) :
    (ListCall.pop side list).Fares heap lists lost := by
  obtain ⟨entries, present, filled⟩ := allowed
  obtain ⟨val, rest, popped⟩ := exists_listPop filled side
  obtain ⟨heap', ends, holding'⟩ := holding.popString present popped
  rw [Fares, meaning, stringsAt_eq present, popped]
  exact ⟨heap', ends.bind (Ends.pure _ _), holding'⟩

theorem ListCall.popKept_fares (holding : Holding heap lists lost) {side : End} {own : Bool}
    (allowed : (ListCall.popKept side list own).Allowed heap lists) :
    (ListCall.popKept side list own).Fares heap lists lost := by
  obtain ⟨entries, present, filled⟩ := allowed
  obtain ⟨val, rest, popped⟩ := exists_listPop filled side
  obtain ⟨heap', ends, holding'⟩ := holding.popKept present popped own
  rw [Fares, meaning, stringsAt_eq present, popped]
  exact ⟨heap', ends.bind (Ends.pure _ _), holding'⟩

theorem ListCall.popPush_fares (holding : Holding heap lists lost) {src dst : Addr} {room : Bool}
    (allowed : (ListCall.popPush src dst room).Allowed heap lists) :
    (ListCall.popPush src dst room).Fares heap lists lost := by
  obtain ⟨entries, val, rest, present, popped, target⟩ := allowed
  rw [Fares, meaning, stringsAt_eq present, popped]
  cases room with
  | false =>
    obtain ⟨old, there⟩ := Option.ne_none_iff_exists'.mp target
    obtain ⟨heap', ends, holding'⟩ := @Holding.popPush heap entries rest val lists lost src dst
      false old holding present popped there
    refine ⟨heap', ends.bind (Ends.pure _ _), ?_⟩
    rw [← stringsAt_eq there] at holding'
    exact holding'
  | true =>
    obtain ⟨heap', ends, holding'⟩ := @Holding.popPush heap entries rest val lists lost src dst
      true [] holding present popped ⟨rfl, target⟩
    exact ⟨heap', ends.bind (Ends.pure _ _), holding'⟩

theorem ListCall.moveEnd_fares (holding : Holding heap lists lost) {source target : End}
    {src dst : Addr} (allowed : (ListCall.moveEnd source target src dst).Allowed heap lists) :
    (ListCall.moveEnd source target src dst).Fares heap lists lost := by
  obtain ⟨entries, present⟩ := Option.ne_none_iff_exists'.mp allowed.1
  rw [Fares, meaning, stringsAt_eq present]
  cases popped : listPop source entries with
  | none =>
    have empty : entries = [] := by
      cases entries with
      | nil => rfl
      | cons first rest => cases source <;> cases popped
    exact ⟨heap, (holding.moveEnd_empty source target (empty ▸ present)).bind (Ends.pure _ _),
      holding⟩
  | some taken =>
    obtain ⟨val, rest⟩ := taken
    have there : Function.update lists src (some rest) dst =
        some (stringsAt (Function.update lists src (some rest)) dst) := by
      by_cases same : dst = src
      · rw [stringsAt, same, Function.update_self, Option.getD_some]
      · obtain ⟨old, found⟩ := Option.ne_none_iff_exists'.mp allowed.2
        rw [stringsAt, Function.update_of_ne same, found, Option.getD_some]
    obtain ⟨heap', ends, holding'⟩ := holding.moveEnd present popped there
    exact ⟨heap', ends.bind (Ends.pure _ _), holding'⟩

/-- Every call of a handler. -/
theorem ListCall.fares (holding : Holding heap lists lost) (call : ListCall)
    (allowed : call.Allowed heap lists) : call.Fares heap lists lost := by
  cases call with
  | create list =>
    obtain ⟨heap', ends, holding'⟩ := holding.create allowed
    exact ⟨heap', ends.bind (Ends.pure _ _), holding'⟩
  | destroy list =>
    obtain ⟨entries, present⟩ := Option.ne_none_iff_exists'.mp allowed
    obtain ⟨heap', ends, holding'⟩ := holding.destroy present
    exact ⟨heap', ends.bind (Ends.pure _ _), holding'⟩
  | push side list entry val =>
    obtain ⟨entries, present⟩ := Option.ne_none_iff_exists'.mp allowed.1
    obtain ⟨heap', ends, holding'⟩ := holding.push present allowed.2 side val
    rw [Fares, meaning, stringsAt_eq present]
    exact ⟨heap', ends.bind (Ends.pure _ _), holding'⟩
  | pop side list => exact pop_fares holding allowed
  | popKept side list own => exact popKept_fares holding allowed
  | popPush src dst room => exact popPush_fares holding allowed
  | moveEnd source target src dst => exact moveEnd_fares holding allowed
  | remove list target bss =>
    obtain ⟨entries, present, few⟩ := allowed
    obtain ⟨heap', ends, holding'⟩ := holding.remove present few target bss
    rw [Fares, meaning, stringsAt_eq present]
    exact ⟨heap', ends.bind (Ends.pure _ _), holding'⟩
  | get list index =>
    obtain ⟨entries, present, few, inRange⟩ := allowed
    rw [Fares, meaning, stringsAt_eq present]
    exact ⟨heap, (holding.lindex present few inRange).bind (Ends.pure _ _), holding⟩
  | set list index val =>
    obtain ⟨entries, present, few, inRange⟩ := allowed
    obtain ⟨heap', ends, holding'⟩ := holding.lset present few inRange val
    rw [Fares, meaning, stringsAt_eq present]
    cases inside : listIndex entries index with
    | none =>
      rw [inside] at ends holding'
      rw [Option.elim_none, ← present, Function.update_eq_self] at holding'
      exact ⟨heap', ends.bind (Ends.pure _ _), holding'⟩
    | some place =>
      rw [inside] at ends holding'
      exact ⟨heap', ends.bind (Ends.pure _ _), holding'⟩
  | range list offset1 offset2 =>
    obtain ⟨entries, present⟩ := Option.ne_none_iff_exists'.mp allowed.1
    rw [Fares, meaning, stringsAt_eq present]
    exact ⟨heap, (holding.lrange present allowed.2).bind (Ends.pure _ _), holding⟩
  | trim list offset1 offset2 room =>
    obtain ⟨entries, present⟩ := Option.ne_none_iff_exists'.mp allowed.1
    obtain ⟨heap', ends, holding'⟩ := @Holding.ltrim heap list entries lists lost offset1 offset2
      room holding present allowed.2.1 allowed.2.2
    rw [Fares, meaning, stringsAt_eq present]
    cases range : ranged entries offset1 offset2 with
    | none =>
      rw [range] at ends holding'
      exact ⟨heap', ends.bind (Ends.pure _ _), holding'⟩
    | some kept =>
      rw [range] at ends holding'
      exact ⟨heap', ends.bind (Ends.pure _ _), holding'⟩
  | insert list pivot val after room =>
    obtain ⟨entries, present⟩ := Option.ne_none_iff_exists'.mp allowed.1
    obtain ⟨heap', ends, holding'⟩ := @Holding.linsert heap list entries lists lost room after
      holding present allowed.2 pivot val
    rw [Fares, meaning, stringsAt_eq present]
    cases inserted : insertAt pivot val after entries with
    | none =>
      rw [inserted] at ends holding'
      rw [Option.getD_none, ← present, Function.update_eq_self] at holding'
      exact ⟨heap', ends.bind (Ends.pure _ _), holding'⟩
    | some new =>
      rw [inserted] at ends holding'
      exact ⟨heap', ends.bind (Ends.pure _ _), holding'⟩

/-! ### Any number of calls -/

/-- The run lemma: after any history memory holds the lists, what was lost, and nothing else. -/
theorem ListsRun.holding (run : ListsRun heap lists lost) : Holding heap lists lost := by
  induction run with
  | start dead =>
    refine ⟨fun _ => none, ⟨⟨nofun, nofun, nofun, nofun⟩, fun _ outside => ?_, fun node live => ?_⟩,
      fun _ => .none⟩
    · exact absurd outside (Set.notMem_empty _)
    · exact absurd (dead node) (live ▸ Bool.noConfusion)
  | step call before allowed ran inductionHypothesis =>
    obtain ⟨heap', ends, holding⟩ := call.fares inductionHypothesis allowed
    obtain ⟨-, rfl⟩ := ran.unique ends
    exact holding

/-- Whatever the handlers have done before, the next call reads, assigns to and releases only what
is allocated; it ends with the answer it means, in a memory that holds the lists it means. -/
theorem list_memory_safe (run : ListsRun heap lists lost) (call : ListCall)
    (allowed : call.Allowed heap lists) :
    ∃ heap', Ends call.code heap (call.meaning lists).2 heap' ∧
      Holding heap' (call.meaning lists).1 (lostAfter heap lost call) ∧
        ListsRun heap' (call.meaning lists).1 (lostAfter heap lost call) := by
  obtain ⟨heap', ends, holding⟩ := call.fares run.holding allowed
  exact ⟨heap', ends, holding, .step call run allowed ends⟩

/-- A list with one string. -/
private def oneList (list : Addr) : Lists :=
  Function.update (Function.update (fun _ => none) list (some [])) list (some [textArg 2 "x"])

private theorem oneList_run : ListsRun (oneString 16 32) (oneList 16) ∅ := by
  have empty : ListsRun emptyHeap (fun _ => none) ∅ := .start fun _ => rfl
  have created : ListsRun (listCreate emptyHeap 16) _ ∅ := .step (.create 16) empty rfl rfl
  exact .step (.push .right 16 32 (textArg 2 "x")) created ⟨Option.some_ne_none _, rfl⟩ rfl

/-- `RPOPLPUSH` of its only string on itself: the list goes and comes back. -/
theorem list_memory_safe_self :
    ∃ heap', Ends (ListCall.popPush 16 16 true).code (oneString 16 32)
      (.string (some (textArg 2 "x"))) heap' ∧
        Holding heap' ((ListCall.popPush 16 16 true).meaning (oneList 16)).1 ∅ := by
  obtain ⟨heap', ends, holding, -⟩ := list_memory_safe oneList_run (.popPush 16 16 true)
    ⟨[textArg 2 "x"], textArg 2 "x", [], rfl, rfl, Or.inr ⟨rfl, rfl⟩⟩
  exact ⟨heap', ends, holding⟩

/-- At any time each list is a ring of entries that hold its strings, and what is allocated is an
entry that `BLPOP` or `BRPOP` popped, or a list or an entry of just one of them: nothing else is
lost, and nothing is in two places. -/
theorem list_memory_exact (run : ListsRun heap lists lost) :
    ∃ seqs : Addr → List Addr,
      (∀ list entries, lists list = some entries →
        Path heap.next list (seqs list) list ∧ Path heap.prev list (seqs list).reverse list ∧
          (seqs list).map heap.val = entries.map some ∧ heap.num list = entries.length) ∧
        (∀ node, heap.live node = true ↔
          node ∈ lost ∨ ∃! list, lists list ≠ none ∧ node ∈ list :: seqs list) ∧
          ∀ node ∈ lost, ∀ list, lists list ≠ none → node ∉ list :: seqs list := by
  obtain ⟨seqs, whole, tells⟩ := run.holding
  have present {list : Addr} {seq : List Addr} (found : seqs list = some seq) :
      lists list ≠ none := by
    intro absent
    have told := tells list
    rw [found, absent] at told
    cases told
  have there {list : Addr} (listed : lists list ≠ none) :
      seqs list = some ((seqs list).getD []) := by
    obtain ⟨entries, held⟩ := Option.ne_none_iff_exists'.mp listed
    obtain ⟨seq, found, -⟩ := tells.found held
    rw [found, Option.getD_some]
  refine ⟨fun list => (seqs list).getD [], fun list entries listed => ?_,
    fun node => ⟨fun live => ?_, ?_⟩, fun node outside list listed inside => ?_⟩
  · obtain ⟨seq, found, shows⟩ := tells.found listed
    have ring := whole.represents.ring _ _ found
    simp only [found, Option.getD_some]
    exact ⟨ring.forward, ring.backward, shows, whole.size found shows⟩
  · rcases whole.full node live with ⟨list, seq, found, member⟩ | outside
    · refine Or.inr ⟨list, ⟨present found, by simpa only [found, Option.getD_some] using member⟩,
        ?_⟩
      rintro other ⟨listed, inside⟩
      by_contra different
      exact whole.apart found member ⟨other, _, different, there listed, inside⟩
    · exact Or.inl outside
  · rintro (outside | ⟨list, ⟨listed, member⟩, -⟩)
    · exact (whole.free node outside).live
    · exact whole.live (there listed) member
  · exact (whole.free node outside).loose list _ (there listed) inside

/-- `BLPOP` of the first of two strings: its entry is lost. -/
theorem list_memory_exact_popped :
    ∃ heap lists lost, ListsRun heap lists lost ∧ lists 16 = some [textArg 4 "y"] ∧ 32 ∈ lost ∧
      ∃ seqs : Addr → List Addr,
        (∀ list entries, lists list = some entries →
          Path heap.next list (seqs list) list ∧ Path heap.prev list (seqs list).reverse list ∧
            (seqs list).map heap.val = entries.map some ∧ heap.num list = entries.length) ∧
          (∀ node, heap.live node = true ↔
            node ∈ lost ∨ ∃! list, lists list ≠ none ∧ node ∈ list :: seqs list) ∧
            ∀ node ∈ lost, ∀ list, lists list ≠ none → node ∉ list :: seqs list := by
  have pushed : ∃ heap, Ends (ListCall.push .right 16 48 (textArg 4 "y")).code (oneString 16 32)
      .nothing heap ∧ heap.walk .left 16 = 32 := ⟨_, rfl, rfl⟩
  obtain ⟨heap₁, ends₁, first⟩ := pushed
  have run₁ : ListsRun heap₁ (Function.update (oneList 16) 16
      (some [textArg 2 "x", textArg 4 "y"])) ∅ :=
    .step (.push .right 16 48 (textArg 4 "y")) oneList_run ⟨Option.some_ne_none _, rfl⟩ ends₁
  have allowed : (ListCall.popKept .left 16 true).Allowed heap₁ (Function.update (oneList 16) 16
      (some [textArg 2 "x", textArg 4 "y"])) := ⟨_, rfl, List.cons_ne_nil _ _⟩
  obtain ⟨heap₂, ends₂, -⟩ := ListCall.fares run₁.holding _ allowed
  have run₂ := ListsRun.step _ run₁ allowed ends₂
  exact ⟨heap₂, _, _, run₂, rfl, first ▸ Set.mem_insert _ _, list_memory_exact run₂⟩

end PseudoRedis
