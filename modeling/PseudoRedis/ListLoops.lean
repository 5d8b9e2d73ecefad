/-
This file proves of the loops of the handlers that they walk over the lists in memory without
a fault and do to the strings what the handlers do to a list of strings. Each loop is followed
by induction on the entries it has before it; those it has behind it are in the sequence of
the list all the time, with the entries it has removed gone.
-/

import PseudoRedis.ListWhole

namespace PseudoRedis

open Rings Faulting

variable {heap heap' : ListHeap} {seqs : Sequences} {list node target entry : Addr}
  {seq seq' front back done todo : List Addr} {loose loose' : Set Addr} {side : End}
  {entries entries' rest : List Bss} {bss pivot val : Bss}

/-! ### The strings of all lists -/

/-- The strings of every list. -/
abbrev Lists := Addr → Option (List Bss)

/-- The entries of every list hold its strings. -/
def Tells (heap : ListHeap) (seqs : Sequences) (lists : Lists) : Prop :=
  ∀ list, Option.Rel (Shows heap) (seqs list) (lists list)

variable {lists : Lists}

/-- Related options that are not empty have related contents. -/
theorem rel_some {First Second : Type} {relation : First → Second → Prop} {first : Option First}
    {second : Second} (related : Option.Rel relation first (some second)) :
    ∃ value, first = some value ∧ relation value second := by
  cases related with
  | some same => exact ⟨_, rfl, same⟩

/-- Options stay related where their contents do. -/
theorem rel_imp {First Second : Type} {relation relation' : First → Second → Prop}
    {first : Option First} {second : Option Second} (related : Option.Rel relation first second)
    (keeps : ∀ value value', first = some value → relation value value' →
      relation' value value') : Option.Rel relation' first second := by
  cases related with
  | some same => exact .some (keeps _ _ rfl same)
  | none => exact .none

theorem Tells.found (tells : Tells heap seqs lists) (present : lists list = some entries) :
    ∃ seq, seqs list = some seq ∧ Shows heap seq entries :=
  rel_some (present ▸ tells list)

/-- Strings outside the lists may change. -/
theorem Tells.congr (tells : Tells heap seqs lists)
    (same : ∀ node, Lies seqs node → heap'.val node = heap.val node) :
    Tells heap' seqs lists := fun list =>
  rel_imp (tells list) fun seq _ found shows => shows.congr fun node member =>
    same node ⟨list, seq, found, List.mem_cons_of_mem _ member⟩

/-- One list has other strings, and the entries of the others hold theirs. -/
theorem Tells.update (tells : Tells heap seqs lists) {new : Option (List Addr)}
    {newEntries : Option (List Bss)}
    (same : ∀ other seq, other ≠ list → seqs other = some seq →
      ∀ node ∈ seq, heap'.val node = heap.val node)
    (own : Option.Rel (Shows heap') new newEntries) :
    Tells heap' (Function.update seqs list new) (Function.update lists list newEntries) := by
  intro other
  by_cases equal : other = list
  · rw [equal, Function.update_self, Function.update_self]
    exact own
  · rw [Function.update_of_ne equal, Function.update_of_ne equal]
    exact rel_imp (tells other) fun seq _ found shows => shows.congr (same other seq equal found)

theorem Tells.updateSame (tells : Tells heap seqs lists) {new : Option (List Addr)}
    {newEntries : Option (List Bss)} (vals : heap'.val = heap.val)
    (own : Option.Rel (Shows heap') new newEntries) :
    Tells heap' (Function.update seqs list new) (Function.update lists list newEntries) :=
  tells.update (fun _ _ _ _ _ _ => congrFun vals _) own

/-- The memory holds these lists of strings, the entries that were lost, and nothing else. -/
def Holding (heap : ListHeap) (lists : Lists) (lost : Set Addr) : Prop :=
  ∃ seqs, Whole heap seqs lost ∧ Tells heap seqs lists

variable {lost : Set Addr}

theorem Shows.unoriented (shows : Shows heap (PseudoRedis.oriented side seq) entries) :
    Shows heap seq (PseudoRedis.oriented side entries) := by
  have turned := shows.oriented side
  rwa [oriented_oriented] at turned

theorem Shows.orNone (shows : Shows heap seq entries) :
    Option.Rel (Shows heap) (orNone seq) (orNone entries) := by
  cases seq with
  | nil =>
    obtain rfl : entries = [] := List.map_eq_nil_iff.mp shows.symm
    exact .none
  | cons node others =>
    obtain ⟨val, rest, rfl, -, -⟩ := shows.cons_inv
    exact .some shows

theorem Shows.length (shows : Shows heap seq entries) : seq.length = entries.length := by
  have lengths := congrArg List.length shows
  rwa [List.length_map, List.length_map] at lengths

/-- The entry a walk finds first, and its string. -/
theorem Shows.first (shows : Shows heap seq entries)
    (split : PseudoRedis.oriented side entries = val :: rest) :
    ∃ node others, PseudoRedis.oriented side seq = node :: others ∧ heap.val node = some val ∧
      Shows heap others rest := by
  have turned := shows.oriented side
  rw [split] at turned
  obtain ⟨node, others, cut, held, same⟩ := List.map_eq_cons_iff.mp turned
  exact ⟨node, others, cut, held, same⟩

/-- What is popped from a list of strings is what a walk from that end finds first. -/
theorem listPop_eq (side : End) (entries : List Bss) : listPop side entries =
    match oriented side entries with
    | [] => none
    | val :: rest => some (val, oriented side rest) := by
  cases side with
  | left => cases entries <;> rfl
  | right =>
    rcases List.eq_nil_or_concat entries with rfl | ⟨front, last, rfl⟩
    · rfl
    · rw [List.concat_eq_append, listPop_right, oriented, List.reverse_concat]
      simp only [oriented, List.reverse_reverse]

/-! ### Pushing and popping -/

theorem oriented_listInsert (side : End) (entries : List Bss) (val : Bss) :
    oriented side (listInsert side entries val) = val :: oriented side entries := by
  cases side with
  | left => rfl
  | right => rw [listInsert, oriented, List.reverse_concat, oriented]

/-- A loose entry with its string comes to an end of a list. -/
theorem Whole.insertedString (whole : Whole heap seqs loose) (tells : Tells heap seqs lists)
    (present : lists list = some entries) (inside : entry ∈ loose)
    (held : heap.val entry = some val) (side : End) :
    ∃ heap' seqs', Ends (ListCode.insert side list entry) heap () heap' ∧
      Whole heap' seqs' (loose \ {entry}) ∧
        Tells heap' seqs' (Function.update lists list (some (listInsert side entries val))) ∧
          heap'.val = heap.val ∧ heap'.live = heap.live := by
  obtain ⟨seq, found, shows⟩ := tells.found present
  obtain ⟨heap', seq', ends, whole', split, vals, live⟩ := whole.inserted found inside side
  refine ⟨heap', _, ends, whole', tells.updateSame vals (.some ?_), vals, live⟩
  have turned : Shows heap (entry :: oriented side seq) (val :: oriented side entries) :=
    congrArg₂ List.cons held (shows.oriented side)
  rw [← split, ← oriented_listInsert] at turned
  have own := turned.unoriented
  rw [oriented_oriented] at own
  exact own.congr fun node _ => congrFun vals node

theorem Holding.push (holding : Holding heap lists lost) (present : lists list = some entries)
    (dead : heap.live entry = false) (side : End) (val : Bss) :
    ∃ heap', Ends (ListCode.push side list entry val) heap () heap' ∧
      Holding heap' (Function.update lists list (some (listInsert side entries val))) lost := by
  obtain ⟨seqs, whole, tells⟩ := holding
  have outside := (whole.dead_iff.mp dead).1
  have created := whole.createEntry dead val
  have tells' : Tells (listCreateEntry heap entry val) seqs lists := by
    refine tells.congr fun node belongs => Function.update_of_ne ?_ _ _
    rintro rfl
    exact outside belongs
  obtain ⟨heap', seqs', ends, whole', told, -⟩ := created.insertedString tells' present
    (Set.mem_insert _ _) (Function.update_self _ _ _) side
  refine ⟨heap', Ends.bind rfl ends, seqs', ?_, told⟩
  rwa [Set.insert_sdiff_self_of_notMem (whole.dead_iff.mp dead).2] at whole'

/-- The entry whose string is popped is taken out. -/
theorem Whole.takenString (whole : Whole heap seqs loose) (tells : Tells heap seqs lists)
    (present : lists list = some entries) (popped : listPop side entries = some (val, rest)) :
    heap.live list = true ∧ heap.next list ≠ list ∧ heap.walk side list ∉ loose ∧
      ∃ heap' seqs', Ends (ListCode.rmNf list (heap.walk side list)) heap (heap.walk side list)
          heap' ∧
        Whole heap' seqs' (insert (heap.walk side list) loose) ∧
          Tells heap' seqs' (Function.update lists list (some rest)) ∧
            heap'.val (heap.walk side list) = some val ∧ heap'.live = heap.live := by
  obtain ⟨seq, found, shows⟩ := tells.found present
  rw [listPop_eq] at popped
  cases split : oriented side entries with
  | nil =>
    rw [split] at popped
    cases popped
  | cons first others =>
    rw [split] at popped
    obtain ⟨rfl, rfl⟩ := Prod.mk.inj (Option.some.inj popped)
    obtain ⟨node, nodes, cut, held, same⟩ := shows.first split
    obtain ⟨some, rfl, heap', seq', ends, whole', split', vals, live⟩ := whole.taken found cut
    have inside : heap.walk side list ∈ seq := by
      rw [← mem_oriented side, cut]
      exact List.mem_cons_self
    have outside : heap.walk side list ∉ loose := fun before =>
      (whole.free _ before).loose list seq found (List.mem_cons_of_mem _ inside)
    refine ⟨whole.live found List.mem_cons_self, some, outside, heap', _, ends, whole',
      tells.updateSame vals (.some ?_), (congrFun vals _).trans held, live⟩
    rw [← split'] at same
    exact same.unoriented.congr fun node _ => congrFun vals node

/-- A string is popped: its entry is out. -/
theorem Whole.poppedString (whole : Whole heap seqs loose) (tells : Tells heap seqs lists)
    (present : lists list = some entries) (popped : listPop side entries = some (val, rest)) :
    heap.walk side list ∉ loose ∧ ∃ heap' seqs',
      Ends (ListCode.pop side list) heap (some (heap.walk side list)) heap' ∧
        Whole heap' seqs' (insert (heap.walk side list) loose) ∧
          Tells heap' seqs' (Function.update lists list (some rest)) ∧
            heap'.val (heap.walk side list) = some val ∧ heap'.live = heap.live := by
  obtain ⟨live, some, outside, heap', seqs', ends, taken⟩ := whole.takenString tells present popped
  exact ⟨outside, heap', seqs', Ends.bind (ListCode.next_ends live) <| Ends.ifNeg some <|
    Ends.bind (ListCode.walk_ends side live) <| ends.bind (Ends.pure _ _), taken⟩

/-- The list of a handler that has taken something out. -/
theorem Whole.leftStrings (whole : Whole heap seqs loose) (tells : Tells heap seqs lists)
    (present : lists list = some entries) :
    ∃ heap' seqs', Ends (ListCode.leave list) heap () heap' ∧ Whole heap' seqs' loose ∧
      Tells heap' seqs' (Function.update lists list (orNone entries)) ∧ heap'.val = heap.val ∧
        (∀ node, heap'.live node = true → heap.live node = true) ∧
          (entries = [] → heap'.live list = false) := by
  obtain ⟨seq, found, shows⟩ := tells.found present
  obtain ⟨heap', ends, whole', vals, shrinks, gone⟩ := whole.leave found
  refine ⟨heap', _, ends, whole', tells.updateSame vals
    (shows.congr fun node _ => congrFun vals node).orNone, vals, shrinks, fun empty => gone ?_⟩
  exact List.map_eq_nil_iff.mp (shows.trans (congrArg _ empty))

theorem Holding.popString (holding : Holding heap lists lost) (present : lists list = some entries)
    (popped : listPop side entries = some (val, rest)) :
    ∃ heap', Ends (ListCode.popString side list) heap val heap' ∧
      Holding heap' (Function.update lists list (orNone rest)) lost := by
  obtain ⟨seqs, whole, tells⟩ := holding
  obtain ⟨outside, heap₁, seqs₁, ends₁, whole₁, tells₁, held, -⟩ :=
    whole.poppedString tells present popped
  obtain ⟨heap₂, seqs₂, ends₂, whole₂, tells₂, vals, -⟩ :=
    whole₁.leftStrings tells₁ (Function.update_self _ _ _)
  obtain ⟨ends₃, whole₃⟩ := whole₂.destroyEntry (Set.mem_insert _ _)
  have free := whole₂.free _ (Set.mem_insert _ _)
  rw [Function.update_idem] at tells₂
  rw [Set.insert_sdiff_self_of_notMem outside] at whole₃
  refine ⟨_, ends₁.bind <| ends₂.bind <| Ends.bind (Ends.pure _ _) <|
    Ends.bind (ListCode.str_ends free.live ((congrFun vals _).trans held)) <|
      ends₃.bind (Ends.pure _ _), seqs₂, whole₃, tells₂⟩

/-- `BLPOP` and `BRPOP`: the entry whose string is popped is lost. -/
theorem Holding.popKept (holding : Holding heap lists lost) (present : lists list = some entries)
    (popped : listPop side entries = some (val, rest)) (own : Bool) :
    ∃ heap', Ends (ListCode.popKept side list own) heap val heap' ∧
      Holding heap' (Function.update lists list (if own then orNone rest else some rest))
        (insert (heap.walk side list) lost) := by
  obtain ⟨seqs, whole, tells⟩ := holding
  obtain ⟨-, heap₁, seqs₁, ends₁, whole₁, tells₁, held, live⟩ :=
    whole.poppedString tells present popped
  cases own with
  | false =>
    obtain ⟨seq, found, -⟩ := tells₁.found (Function.update_self _ _ _)
    have alive := whole₁.live found List.mem_cons_self
    have free := whole₁.free _ (Set.mem_insert _ _)
    exact ⟨heap₁, ends₁.bind <| Ends.bind (ListCode.num_ends alive) <| Ends.bind (Ends.pure _ _)
      (ListCode.str_ends free.live held), seqs₁, whole₁, tells₁⟩
  | true =>
    obtain ⟨heap₂, seqs₂, ends₂, whole₂, tells₂, vals, -⟩ :=
      whole₁.leftStrings tells₁ (Function.update_self _ _ _)
    have free := whole₂.free _ (Set.mem_insert _ _)
    rw [Function.update_idem] at tells₂
    exact ⟨heap₂, ends₁.bind <| ends₂.bind <| Ends.bind (Ends.pure _ _)
      (ListCode.str_ends free.live ((congrFun vals _).trans held)), seqs₂, whole₂, tells₂⟩

/-- A new list has no strings. -/
theorem Whole.createdList (whole : Whole heap seqs loose) (tells : Tells heap seqs lists)
    (dead : heap.live list = false) :
    Ends (ListCode.create list) heap () (listCreate heap list) ∧
      Whole (listCreate heap list) (Function.update seqs list (some [])) loose ∧
        Tells (listCreate heap list) (Function.update seqs list (some []))
            (Function.update lists list (some [])) ∧
          ∀ node, heap.live node = true → (listCreate heap list).val node = heap.val node := by
  have others (node : Addr) (live : heap.live node = true) :
      (listCreate heap list).val node = heap.val node := by
    refine Function.update_of_ne ?_ _ _
    rintro rfl
    exact Bool.false_ne_true (dead.symm.trans live)
  refine ⟨rfl, whole.create dead, tells.update (fun other seq _ found node member => ?_)
    (.some rfl), others⟩
  exact others node (whole.live found (List.mem_cons_of_mem _ member))

/-- What is created without being allocated twice. -/
theorem Holding.create (holding : Holding heap lists lost) (dead : heap.live list = false) :
    ∃ heap', Ends (ListCode.create list) heap () heap' ∧
      Holding heap' (Function.update lists list (some [])) lost := by
  obtain ⟨seqs, whole, tells⟩ := holding
  obtain ⟨ends, whole', tells', -⟩ := whole.createdList tells dead
  exact ⟨_, ends, _, whole', tells'⟩

theorem Holding.destroy (holding : Holding heap lists lost) (present : lists list = some entries) :
    ∃ heap', Ends (ListCode.destroy list) heap () heap' ∧
      Holding heap' (Function.update lists list none) lost := by
  obtain ⟨seqs, whole, tells⟩ := holding
  obtain ⟨seq, found, -⟩ := tells.found present
  obtain ⟨heap', ends, whole', vals, -⟩ := whole.destroy found
  exact ⟨heap', ends, _, whole', tells.updateSame vals .none⟩

/-- A loose entry is put at the front of a list, and its string read. -/
theorem Whole.pushedBack (whole : Whole heap seqs (insert entry lost)) (outside : entry ∉ lost)
    (tells : Tells heap seqs lists) (present : lists list = some entries)
    (held : heap.val entry = some val) :
    ∃ heap', Ends (do ListCode.insertFront list entry; ListCode.str entry) heap val heap' ∧
      Holding heap' (Function.update lists list (some (val :: entries))) lost := by
  obtain ⟨heap', seqs', ends, whole', tells', vals, live⟩ :=
    whole.insertedString tells present (Set.mem_insert _ _) held .left
  have alive : heap'.live entry = true := live ▸ (whole.free entry (Set.mem_insert _ _)).live
  rw [Set.insert_sdiff_self_of_notMem outside] at whole'
  exact ⟨heap', ends.bind (ListCode.str_ends alive ((congrFun vals entry).trans held)), seqs',
    whole', tells'⟩

/-- `RPOPLPUSH`: the destination has a list when the source has been left, or gets one. -/
theorem Holding.popPush {src dst : Addr} {room : Bool} {old : List Bss}
    (holding : Holding heap lists lost) (present : lists src = some entries)
    (popped : listPop .right entries = some (val, rest))
    (target : if room then old = [] ∧ (heap.live dst = false ∨ dst = src ∧ rest = [])
      else Function.update lists src (orNone rest) dst = some old) :
    ∃ heap', Ends (ListCode.popPush src dst room) heap val heap' ∧
      Holding heap' (Function.update (Function.update lists src (orNone rest)) dst
        (some (val :: old))) lost := by
  obtain ⟨seqs, whole, tells⟩ := holding
  obtain ⟨outside, heap₁, seqs₁, ends₁, whole₁, tells₁, held, live⟩ :=
    whole.poppedString tells present popped
  obtain ⟨heap₂, seqs₂, ends₂, whole₂, tells₂, vals, shrinks, gone⟩ :=
    whole₁.leftStrings tells₁ (Function.update_self _ _ _)
  rw [Function.update_idem] at tells₂
  generalize heap.walk .right src = entry at *
  have free := whole₂.free entry (Set.mem_insert _ _)
  have held₂ : heap₂.val entry = some val := (congrFun vals entry).trans held
  cases room with
  | false =>
    obtain ⟨heap₃, ends₃, holding⟩ := whole₂.pushedBack outside tells₂ target held₂
    exact ⟨heap₃, ends₁.bind <| ends₂.bind <| Ends.bind (Ends.pure _ entry) ends₃, holding⟩
  | true =>
    obtain ⟨rfl, dead⟩ := target
    have dead₂ : heap₂.live dst = false := by
      rcases dead with dead | ⟨rfl, empty⟩
      · rw [← live] at dead
        exact Bool.eq_false_of_not_eq_true fun alive =>
          Bool.false_ne_true (dead.symm.trans (shrinks dst alive))
      · exact gone empty
    obtain ⟨ends₃, whole₃, tells₃, others⟩ := whole₂.createdList tells₂ dead₂
    obtain ⟨heap₄, ends₄, holding⟩ := whole₃.pushedBack outside tells₃ (Function.update_self _ _ _)
      ((others entry free.live).trans held₂)
    rw [Function.update_idem] at holding
    exact ⟨heap₄, ends₁.bind <| ends₂.bind <| ends₃.bind <|
      Ends.bind (Ends.pure _ entry) ends₄, holding⟩

/-- `list_move_bf` and the others: what is popped from one list is inserted into the other, or into
the same one again. -/
theorem Holding.moveEnd {src dst : Addr} {source target : End} {old : List Bss}
    (holding : Holding heap lists lost) (present : lists src = some entries)
    (popped : listPop source entries = some (val, rest))
    (there : Function.update lists src (some rest) dst = some old) :
    ∃ heap', Ends (ListCode.moveEnd source target src dst) heap 0 heap' ∧
      Holding heap' (Function.update (Function.update lists src (some rest)) dst
        (some (listInsert target old val))) lost := by
  obtain ⟨seqs, whole, tells⟩ := holding
  obtain ⟨live, some, outside, heap₁, seqs₁, ends₁, whole₁, tells₁, held, -⟩ :=
    whole.takenString tells present popped
  obtain ⟨heap₂, seqs₂, ends₂, whole₂, tells₂, -⟩ :=
    whole₁.insertedString tells₁ there (Set.mem_insert _ _) held target
  rw [Set.insert_sdiff_self_of_notMem outside] at whole₂
  exact ⟨heap₂, Ends.bind (ListCode.next_ends live) <| Ends.ifNeg some <|
    Ends.bind (ListCode.walk_ends source live) <| Ends.bind (ends₁.bind ends₂) (Ends.pure _ _),
    seqs₂, whole₂, tells₂⟩

theorem Holding.moveEnd_empty {src dst : Addr} (source target : End)
    (holding : Holding heap lists lost) (empty : lists src = some []) :
    Ends (ListCode.moveEnd source target src dst) heap ListCode.eEmpty heap := by
  obtain ⟨seqs, whole, tells⟩ := holding
  obtain ⟨seq, found, shows⟩ := tells.found empty
  obtain rfl : seq = [] := List.map_eq_nil_iff.mp shows
  have itself := (whole.represents.ring _ _ found).next_eq_head_iff.mpr rfl
  exact Ends.bind (ListCode.next_ends (whole.live found List.mem_cons_self)) <|
    Ends.ifPos itself (Ends.pure _ _)

/-! ### Removing -/

variable {removed : Int}

/-- A loop over a list in memory removes the entries of those strings. By induction on the entries
before it; `done` are those it has left behind. -/
theorem lremFrom_ends (bss : Bss) (goal : Option Int) {fuel : Nat} (whole : Whole heap seqs loose)
    (found : seqs list = some seq) (split : oriented side seq = done ++ todo)
    (shows : Shows heap todo entries) (nonnegative : 0 ≤ removed)
    (few : removed + todo.length < 2 ^ 31) (enough : todo.length ≤ fuel) :
    ∃ heap' seq' todo',
      Ends (ListCode.lremFrom side list bss goal fuel removed (after list todo)) heap
          (removing bss goal removed entries).2 heap' ∧
        Whole heap' (Function.update seqs list (some seq')) loose ∧
          oriented side seq' = done ++ todo' ∧
            Shows heap' todo' (removing bss goal removed entries).1 ∧ heap'.val = heap.val := by
  induction todo generalizing heap seqs seq done entries removed fuel with
  | nil =>
    obtain rfl : entries = [] := List.map_eq_nil_iff.mp shows.symm
    rw [ListCode.lremFrom.eq_def]
    refine ⟨heap, seq, [], Ends.ifPos rfl (Ends.pure _ _), ?_, split, rfl, rfl⟩
    rwa [← found, Function.update_eq_self]
  | cons node todo inductionHypothesis =>
    obtain ⟨val, rest, rfl, held, others⟩ := shows.cons_inv
    obtain ⟨fewer, rfl⟩ : ∃ fewer, fuel = fewer + 1 :=
      ⟨fuel - 1, (Nat.sub_add_cancel (Nat.le_trans (Nat.le_add_left 1 _) enough)).symm⟩
    rw [List.length_cons] at few enough
    have ring := whole.represents.ring _ _ found
    have inside : node ∈ seq := by
      rw [← mem_oriented side, split]
      exact List.mem_append_right _ List.mem_cons_self
    have live := whole.live found (List.mem_cons_of_mem _ inside)
    have counted : toInt32 (removed + 1) = removed + 1 :=
      (toInt32_eq_iff _).mpr ⟨by omega, by omega⟩
    have first : after list (node :: todo) = node := rfl
    have reads {value : Int} {last : ListHeap}
        (ends : Ends (if bssCmp val bss = 0 ∧ within goal removed then do
            ListCode.rm list node
            if some (toInt32 (removed + 1)) = goal then return toInt32 (removed + 1)
            else
              ListCode.lremFrom side list bss goal fewer (toInt32 (removed + 1)) (after list todo)
          else ListCode.lremFrom side list bss goal fewer removed (after list todo)) heap value
            last) :
        Ends (ListCode.lremFrom side list bss goal (fewer + 1) removed (after list (node :: todo)))
          heap value last := by
      rw [first, ListCode.lremFrom.eq_def]
      refine Ends.ifNeg (ring.ne_head inside) <| Ends.bind (ListCode.walk_ends side live) <|
        Ends.bind (ListCode.str_ends live held) ?_
      rw [walk_node ring split]
      exact ends
    rw [removing]
    by_cases hit : bssCmp val bss = 0 ∧ within goal removed
    · -- the entry goes, and the walk goes on from the pointer read before
      obtain ⟨heap₁, seq₁, ends, whole₁, split₁, vals⟩ := whole.rm found split
      have others₁ : Shows heap₁ todo rest := others.congr fun node _ => congrFun vals node
      rw [if_pos hit]
      by_cases reached : some (removed + 1) = goal
      · rw [if_pos reached]
        refine ⟨heap₁, seq₁, todo, reads (Ends.ifPos hit (ends.bind ?_)), whole₁, split₁, others₁,
          vals⟩
        rw [counted]
        exact Ends.ifPos reached (Ends.pure _ _)
      · rw [if_neg reached]
        obtain ⟨heap₂, seq₂, todo₂, ends₂, whole₂, split₂, shows₂, vals₂⟩ :=
          inductionHypothesis whole₁ (Function.update_self _ _ _) split₁ others₁
            (show 0 ≤ removed + 1 by omega) (by omega) (Nat.le_of_succ_le_succ enough)
        rw [Function.update_idem] at whole₂
        refine ⟨heap₂, seq₂, todo₂, reads (Ends.ifPos hit (ends.bind ?_)), whole₂, split₂, shows₂,
          vals₂.trans vals⟩
        rw [counted]
        exact Ends.ifNeg reached ends₂
    · -- the entry stays and joins those left behind
      have split' : oriented side seq = (done ++ [node]) ++ todo := by
        rw [split, List.append_assoc, List.singleton_append]
      obtain ⟨heap₁, seq₁, todo₁, ends₁, whole₁, split₁, shows₁, vals₁⟩ :=
        inductionHypothesis whole found split' others nonnegative (by omega)
          (Nat.le_of_succ_le_succ enough)
      rw [if_neg hit]
      refine ⟨heap₁, seq₁, node :: todo₁, reads (Ends.ifNeg hit ends₁), whole₁, ?_, ?_, vals₁⟩
      · rw [split₁, List.append_assoc, List.singleton_append]
      · exact congrArg₂ List.cons ((congrFun vals₁ node).trans held) shows₁

/-- A loop over a whole list. -/
theorem Whole.lremFrom (whole : Whole heap seqs loose) (tells : Tells heap seqs lists)
    (present : lists list = some entries) (few : entries.length < 2 ^ 31) (side : End) (bss : Bss)
    (goal : Option Int) :
    ∃ heap' seqs',
      Ends (do ListCode.lremFrom side list bss goal chainBound 0 (← ListCode.walk side list)) heap
          (removing bss goal 0 (oriented side entries)).2 heap' ∧
        Whole heap' seqs' loose ∧ Tells heap' seqs' (Function.update lists list
          (some (oriented side (removing bss goal 0 (oriented side entries)).1))) := by
  obtain ⟨seq, found, shows⟩ := tells.found present
  have length : (oriented side seq).length = seq.length := by
    cases side with
    | left => rfl
    | right => exact List.length_reverse
  have size := shows.length
  obtain ⟨heap', seq', todo', ends, whole', split, shows', vals⟩ :=
    lremFrom_ends bss goal whole found (List.nil_append _).symm (shows.oriented side)
      (Int.le_refl 0) (by omega) (show (oriented side seq).length ≤ chainBound from
        length ▸ Nat.le_of_lt (whole.few found))
  rw [List.nil_append] at split
  rw [← split] at shows'
  refine ⟨heap', _, Ends.bind (ListCode.walk_ends side (whole.live found List.mem_cons_self)) ?_,
    whole', tells.updateSame vals (.some shows'.unoriented)⟩
  rw [walk_head (whole.represents.ring _ _ found)]
  exact ends

/-- `_lrem` leaves the strings `lrem` leaves, and returns how many it has removed. -/
theorem Whole.lrem (whole : Whole heap seqs loose) (tells : Tells heap seqs lists)
    (present : lists list = some entries) (few : entries.length < 2 ^ 31) (target : Int)
    (bss : Bss) :
    ∃ heap' seqs', Ends (ListCode.lrem list target bss) heap (lrem entries target bss).2 heap' ∧
      Whole heap' seqs' loose ∧ Tells heap' seqs'
        (Function.update lists list (some (PseudoRedis.lrem entries target bss).1)) := by
  rcases Int.lt_trichotomy target 0 with negative | rfl | positive
  · obtain ⟨heap', seqs', ends, loops⟩ :=
      whole.lremFrom tells present few .right bss (some (toInt64 (-target)))
    rw [removing_some] at ends loops
    rw [lrem_of_neg entries bss negative]
    exact ⟨heap', seqs', Ends.ifNeg (by omega) <| Ends.ifNeg (by omega) ends, loops⟩
  · obtain ⟨heap', seqs', ends, loops⟩ := whole.lremFrom tells present few .left bss none
    rw [removing_none, zero_add] at ends
    rw [removing_none] at loops
    refine ⟨heap', seqs', Ends.ifNeg (by decide) <| Ends.ifPos rfl ?_, ?_⟩
    · exact ends
    · exact loops
  · obtain ⟨heap', seqs', ends, loops⟩ :=
      whole.lremFrom tells present few .left bss (some target)
    rw [removing_some] at ends loops
    rw [lrem_of_pos entries bss positive]
    exact ⟨heap', seqs', Ends.ifPos positive ends, loops⟩

theorem Holding.remove (holding : Holding heap lists lost) (present : lists list = some entries)
    (few : entries.length < 2 ^ 31) (target : Int) (bss : Bss) :
    ∃ heap', Ends (ListCode.remove list target bss) heap (lrem entries target bss).2 heap' ∧
      Holding heap' (Function.update lists list (orNone (lrem entries target bss).1)) lost := by
  obtain ⟨seqs, whole, tells⟩ := holding
  obtain ⟨heap₁, seqs₁, ends₁, whole₁, tells₁⟩ := whole.lrem tells present few target bss
  obtain ⟨heap₂, seqs₂, ends₂, whole₂, tells₂, -⟩ :=
    whole₁.leftStrings tells₁ (Function.update_self _ _ _)
  rw [Function.update_idem] at tells₂
  exact ⟨heap₂, ends₁.bind <| ends₂.bind <| Ends.pure _ _, seqs₂, whole₂, tells₂⟩

/-! ### The place of an index -/

variable {middle : List Addr}

/-- The node a walk comes to behind another entry. -/
theorem Whole.step (whole : Whole heap seqs loose)
    (found : seqs list = some (front ++ (node :: middle) ++ back)) :
    Ends (ListCode.next (before list front)) heap (before list (front ++ [node])) heap := by
  rw [List.append_assoc] at found
  obtain ⟨live, -, next, -⟩ := whole.ends found
  have place : before list (front ++ [node]) = node := List.getLastD_concat
  have ends := ListCode.next_ends live
  rw [next] at ends
  rw [place]
  exact ends

theorem append_shift :
    front ++ (node :: middle) ++ back = (front ++ [node]) ++ middle ++ back := by
  simp only [List.append_assoc, List.cons_append, List.nil_append]

/-- A counter that stays an `int` comes to the index. -/
theorem stepTo_ends {index i : Int} {fuel : Nat} (whole : Whole heap seqs loose)
    (found : seqs list = some (front ++ middle ++ back)) (left : i + middle.length = index + 1)
    (nonnegative : 0 ≤ i) (few : index < 2 ^ 31 - 1) (enough : middle.length ≤ fuel) :
    Ends (ListCode.stepTo index fuel i (before list front)) heap (before list (front ++ middle))
      heap := by
  induction middle generalizing front i fuel with
  | nil =>
    rw [List.length_nil] at left
    rw [List.append_nil, ListCode.stepTo.eq_def]
    exact Ends.ifNeg (by omega) (Ends.pure _ _)
  | cons node middle inductionHypothesis =>
    rw [List.length_cons] at left enough
    obtain ⟨fewer, rfl⟩ : ∃ fewer, fuel = fewer + 1 := ⟨fuel - 1, by omega⟩
    have counted : toInt32 (i + 1) = i + 1 := (toInt32_eq_iff _).mpr ⟨by omega, by omega⟩
    have further := @inductionHypothesis (front ++ [node]) (i + 1) fewer (append_shift ▸ found)
      (by omega) (by omega) (by omega)
    rw [List.append_assoc, List.singleton_append] at further
    rw [ListCode.stepTo.eq_def]
    refine Ends.ifPos (by omega) <| Ends.bind (whole.step found) ?_
    rw [counted]
    exact further

theorem stepOn_ends {offset : Nat} (whole : Whole heap seqs loose)
    (found : seqs list = some (front ++ middle ++ back)) (steps : middle.length = offset + 1) :
    Ends (ListCode.stepOn offset (before list front)) heap (before list (front ++ middle))
      heap := by
  induction offset generalizing front middle with
  | zero =>
    obtain ⟨node, rfl⟩ := List.length_eq_one_iff.mp steps
    exact whole.step found
  | succ offset inductionHypothesis =>
    cases middle with
    | nil => cases steps
    | cons node middle =>
      have further := @inductionHypothesis (front ++ [node]) middle (append_shift ▸ found)
        (Nat.succ.inj steps)
      rw [List.append_assoc, List.singleton_append] at further
      exact Ends.bind (whole.step found) further

/-- The walk from the head to a place of a list. -/
theorem before_place (list node : Addr) (front : List Addr) :
    before list ([] ++ (front ++ [node])) = node := by
  rw [List.nil_append]
  exact List.getLastD_concat

/-- The entry at a place of a list. -/
theorem Shows.place (shows : Shows heap seq entries) {place : Nat}
    (bound : place < entries.length) :
    ∃ front node back, seq = front ++ node :: back ∧ front.length = place := by
  have inside : place < seq.length := shows.length ▸ bound
  refine ⟨seq.take place, seq[place], seq.drop (place + 1), ?_, ?_⟩
  · rw [List.getElem_cons_drop, List.take_append_drop]
  · rw [List.length_take, Nat.min_eq_left (Nat.le_of_lt inside)]

variable {index : Int}

theorem Whole.size (whole : Whole heap seqs loose) (found : seqs list = some seq)
    (shows : Shows heap seq entries) : heap.num list = entries.length :=
  (whole.represents.num _ _ found).trans shows.length

theorem Whole.find_outside (whole : Whole heap seqs loose) (found : seqs list = some seq)
    (shows : Shows heap seq entries) (outside : listIndex entries index = none) :
    Ends (ListCode.find list index) heap none heap := by
  refine Ends.bind (ListCode.num_ends (whole.live found List.mem_cons_self)) ?_
  rw [whole.size found shows]
  rw [listIndex] at outside
  split at outside
  · exact Ends.ifPos ‹_› (Ends.pure _ _)
  · cases outside

theorem Whole.find_inside (whole : Whole heap seqs loose) (found : seqs list = some seq)
    (shows : Shows heap seq entries) (few : entries.length < 2 ^ 31) {place : Nat}
    (inside : listIndex entries index = some place) (bound : place < entries.length) :
    ∃ front node back, seq = front ++ node :: back ∧ front.length = place ∧
      Ends (ListCode.find list index) heap (some node) heap := by
  obtain ⟨front, node, back, rfl, length⟩ := shows.place bound
  refine ⟨front, node, back, rfl, length,
    Ends.bind (ListCode.num_ends (whole.live found List.mem_cons_self)) ?_⟩
  rw [whole.size found shows]
  rw [listIndex] at inside
  split at inside
  · cases inside
  · rename_i within
    have nonnegative := (not_or.mp within).2
    have same : fromEnd index entries.length = place := by
      have placed := Option.some.inj inside
      omega
    have whole_seq : seqs list = some ([] ++ (front ++ [node]) ++ back) := by
      rw [found, List.nil_append, List.append_assoc, List.singleton_append]
    have enough := whole.few found
    rw [List.length_append, List.length_cons] at enough
    have steps := @stepTo_ends heap seqs list [] back loose (front ++ [node]) (place : Int) 0
      chainBound whole whole_seq (by rw [List.length_append, List.length_singleton]; omega)
      (Int.le_refl 0) (by omega) (by rw [List.length_append, List.length_singleton]; omega)
    rw [before_place] at steps
    refine Ends.ifNeg within (Ends.bind ?_ (Ends.pure _ _))
    rw [same]
    exact steps

/-- An offset from the end is a number again. -/
theorem fromEnd_range (inRange : IsInt64 index) (length : Nat) :
    IsInt64 (fromEnd index length) := by
  rw [fromEnd]
  split
  · exact isInt64_toInt64 _
  · exact inRange

/-- A place a list has an index for is in it. -/
theorem listIndex_bound (inRange : IsInt64 index) {place : Nat}
    (inside : listIndex entries index = some place) : place < entries.length := by
  rw [listIndex] at inside
  split at inside
  · cases inside
  · rename_i within
    obtain ⟨bound, nonnegative⟩ := not_or.mp within
    have small : fromEnd index entries.length < 2 ^ 63 :=
      Int.lt_of_le_of_lt (fromEnd_range inRange _).2 (by decide)
    rw [toSize_of_nonneg (by omega) (by omega)] at bound
    have placed := Option.some.inj inside
    omega

theorem Holding.lindex (holding : Holding heap lists lost) (present : lists list = some entries)
    (few : entries.length < 2 ^ 31) (inRange : IsInt64 index) :
    Ends (ListCode.lindex list index) heap
      ((listIndex entries index).bind fun place => entries[place]?) heap := by
  obtain ⟨seqs, whole, tells⟩ := holding
  obtain ⟨seq, found, shows⟩ := tells.found present
  cases inside : listIndex entries index with
  | none => exact Ends.bind (whole.find_outside found shows inside) (Ends.pure _ _)
  | some place =>
    obtain ⟨front, node, back, rfl, length, ends⟩ :=
      whole.find_inside found shows few inside (listIndex_bound inRange inside)
    have live := (whole.around found).1
    have held := shows.getElem?
    rw [length] at held
    have bound := listIndex_bound inRange inside
    rw [Option.bind_some, List.getElem?_eq_getElem bound]
    rw [List.getElem?_eq_getElem bound] at held
    exact ends.bind <| Ends.bind (ListCode.str_ends live held.symm) (Ends.pure _ _)

theorem Holding.lset (holding : Holding heap lists lost) (present : lists list = some entries)
    (few : entries.length < 2 ^ 31) (inRange : IsInt64 index) (val : Bss) :
    ∃ heap', Ends (ListCode.lset list index val) heap (listIndex entries index).isSome heap' ∧
      Holding heap' (Function.update lists list (some ((listIndex entries index).elim entries
        fun place => entries.set place val))) lost := by
  obtain ⟨seqs, whole, tells⟩ := holding
  obtain ⟨seq, found, shows⟩ := tells.found present
  cases inside : listIndex entries index with
  | none =>
    refine ⟨heap, Ends.bind (whole.find_outside found shows inside) (Ends.pure _ _), seqs, whole,
      ?_⟩
    rw [Option.elim_none, ← present, Function.update_eq_self]
    exact tells
  | some place =>
    have bound := listIndex_bound inRange inside
    obtain ⟨front, node, back, rfl, length, ends⟩ := whole.find_inside found shows few inside bound
    have live := (whole.around found).1
    have held := shows.getElem?
    rw [length, List.getElem?_eq_getElem bound] at held
    have once := (whole.represents.ring _ _ found).once
    have same (other : Addr) (seq : List Addr) (different : other ≠ list)
        (there : seqs other = some seq) (inner : Addr) (member : inner ∈ seq) :
        (heap.setVal node val).val inner = heap.val inner := by
      refine Function.update_of_ne ?_ _ _
      rintro rfl
      exact whole.apart found (List.mem_cons_of_mem _ (List.mem_append_right _ List.mem_cons_self))
        ⟨other, seq, different, there, List.mem_cons_of_mem _ member⟩
    have stored := shows.setVal once val
    rw [length] at stored
    refine ⟨heap.setVal node val, ends.bind <| Ends.bind (ListCode.str_ends live held.symm) <|
      Ends.bind (ListCode.assign_ends live _) (Ends.pure _ _), seqs, ⟨?_, ?_, whole.full⟩, ?_⟩
    · exact whole.represents.relive rfl rfl rfl fun _ _ alive => alive
    · exact fun other outside => ⟨(whole.free other outside).live, (whole.free other outside).loose⟩
    · have told := tells.update same (.some stored)
      rwa [← found, Function.update_eq_self] at told

/-! ### Ranges -/

theorem Whole.offsets (whole : Whole heap seqs loose) (found : seqs list = some seq)
    (shows : Shows heap seq entries) (offset1 offset2 : Int) :
    Ends (ListCode.offsets list offset1 offset2) heap
      (if emptyRange (rangeStart offset1 entries.length) (fromEnd offset2 entries.length)
          entries.length then none
        else some (rangeStart offset1 entries.length, fromEnd offset2 entries.length)) heap := by
  refine Ends.bind (ListCode.num_ends (whole.live found List.mem_cons_self)) ?_
  rw [whole.size found shows]
  split
  · exact Ends.pure _ _
  · exact Ends.pure _ _

/-- The loop of `LRANGE` comes to the end of the range or of the list. -/
theorem collect_ends {stop fuel : Nat} (whole : Whole heap seqs loose)
    (found : seqs list = some (front ++ back)) (shows : Shows heap back entries)
    (enough : back.length ≤ fuel) :
    Ends (ListCode.collect list stop fuel front.length (after list back)) heap
      (entries.take (stop + 1 - front.length)) heap := by
  have size : heap.num list = front.length + back.length := by
    rw [whole.represents.num _ _ found, List.length_append]
  have live := whole.live found List.mem_cons_self
  induction back generalizing front entries fuel with
  | nil =>
    obtain rfl : entries = [] := List.map_eq_nil_iff.mp shows.symm
    rw [List.take_nil, ListCode.collect.eq_def]
    refine Ends.bind (ListCode.num_ends live) (Ends.ifNeg (fun both => ?_) (Ends.pure _ _))
    rw [size, List.length_nil] at both
    omega
  | cons node back inductionHypothesis =>
    obtain ⟨val, rest, rfl, held, others⟩ := shows.cons_inv
    rw [List.length_cons] at enough size
    obtain ⟨fewer, rfl⟩ : ∃ fewer, fuel = fewer + 1 := ⟨fuel - 1, by omega⟩
    rw [ListCode.collect.eq_def]
    refine Ends.bind (ListCode.num_ends live) ?_
    by_cases goesOn : front.length ≤ stop
    · have shifted : seqs list = some ((front ++ [node]) ++ back) := by
        rw [found, List.append_assoc, List.singleton_append]
      have further := @inductionHypothesis (front ++ [node]) rest fewer shifted others (by omega)
        (by rw [List.length_append, List.length_singleton]; omega)
      rw [List.length_append, List.length_singleton] at further
      have count : stop + 1 - front.length = (stop + 1 - (front.length + 1)) + 1 := by omega
      obtain ⟨alive, -, -, -⟩ := whole.around found
      have next := (whole.represents.ring _ _ found).neighbours.1
      rw [count, List.take_succ_cons]
      refine Ends.ifPos ⟨goesOn, by omega⟩ <| Ends.bind (ListCode.str_ends alive held) <|
        Ends.bind (ListCode.next_ends alive) ?_
      rw [show heap.next (after list (node :: back)) = after list back from next]
      exact Ends.bind further (Ends.pure _ _)
    · have none : stop + 1 - front.length = 0 := by omega
      rw [none, List.take_zero]
      exact Ends.ifNeg (fun both => goesOn both.1) (Ends.pure _ _)

/-- The strings of a range, as the handlers take them. -/
def ranged (entries : List Bss) (offset1 offset2 : Int) : Option (List Bss) :=
  if emptyRange (rangeStart offset1 entries.length) (fromEnd offset2 entries.length)
      entries.length then none
  else some (sublist entries (rangeStart offset1 entries.length) (fromEnd offset2 entries.length))

/-- Where the walk to the first entry of a range ends. -/
theorem Whole.stepOn (whole : Whole heap seqs loose) (found : seqs list = some seq)
    (shows : Shows heap seq entries) {offset : Nat} (bound : offset < entries.length) :
    ∃ front node back, seq = front ++ node :: back ∧ front.length = offset ∧
      Ends (ListCode.stepOn offset list) heap node heap := by
  obtain ⟨front, node, back, rfl, length⟩ := shows.place bound
  have cut : seqs list = some ([] ++ (front ++ [node]) ++ back) := by
    rw [found, List.nil_append, List.append_assoc, List.singleton_append]
  have steps := @stepOn_ends heap seqs list [] back loose (front ++ [node]) offset whole cut
    (by rw [List.length_append, List.length_singleton, length])
  rw [before_place] at steps
  exact ⟨front, node, back, rfl, length, steps⟩

variable {offset1 offset2 : Int}

theorem Holding.lrange (holding : Holding heap lists lost) (present : lists list = some entries)
    (inRange : IsInt64 offset2) :
    Ends (ListCode.lrange list offset1 offset2) heap ((ranged entries offset1 offset2).getD [])
      heap := by
  obtain ⟨seqs, whole, tells⟩ := holding
  obtain ⟨seq, found, shows⟩ := tells.found present
  have regular := whole.offsets found shows offset1 offset2
  rw [ranged]
  split
  · rename_i empty
    rw [if_pos empty] at regular
    exact regular.bind (Ends.pure _ _)
  · rename_i range
    rw [if_neg range] at regular
    have nonnegative := rangeStart_nonneg offset1 entries.length
    have small : fromEnd offset2 entries.length < 2 ^ 63 :=
      Int.lt_of_le_of_lt (fromEnd_range inRange _).2 (by decide)
    obtain ⟨firstSize, lastSize, ordered, inside⟩ := toSize_range nonnegative small range
    generalize rangeStart offset1 entries.length = first at *
    generalize fromEnd offset2 entries.length = last at *
    obtain ⟨front, node, back, rfl, length, steps⟩ := whole.stepOn found shows inside
    have dropped : Shows heap (node :: back) (entries.drop first.toNat) := by
      have part := shows.part first.toNat entries.length
      rw [← length, List.drop_left, List.take_of_length_le, List.take_of_length_le] at part
      · rwa [← length]
      · exact (List.length_drop).le.trans (Nat.sub_le _ _)
      · have lengths := shows.length
        rw [List.length_append] at lengths
        omega
    have enough := whole.few found
    rw [List.length_append] at enough
    have collected := @collect_ends heap seqs list front (node :: back) lost _ last.toNat chainBound
      whole found dropped (by omega)
    have count : last.toNat + 1 - front.length = (last - first + 1).toNat := by omega
    rw [count, length] at collected
    refine regular.bind ?_
    rw [Option.getD_some, sublist]
    show Ends (do
      let entry ← ListCode.stepOn (toSize first) list
      ListCode.collect list (toSize last) chainBound (toSize first) entry) heap _ heap
    rw [firstSize, lastSize]
    exact steps.bind collected

/-! ### Trimming -/

variable {newList : Addr} {kept : List Addr} {first last : Int}

/-- One entry moves to the back of another list. -/
theorem Whole.moved (whole : Whole heap seqs loose)
    (source : seqs list = some (front ++ node :: back)) (target : seqs newList = some kept)
    (apart : newList ≠ list) :
    ∃ heap', Ends (ListCode.move .right node list newList) heap () heap' ∧
      Whole heap' (Function.update (Function.update seqs list (some (front ++ back))) newList
        (some (kept ++ [node]))) loose ∧ heap'.val = heap.val := by
  have outside : node ∉ loose := fun inside => (whole.free node inside).loose list _ source
    (List.mem_cons_of_mem _ (List.mem_append_right _ List.mem_cons_self))
  obtain ⟨heap₁, ends₁, whole₁, vals₁, -⟩ := whole.rmNf source
  obtain ⟨heap₂, seq', ends₂, whole₂, split, vals₂, -⟩ :=
    whole₁.inserted ((Function.update_of_ne apart _ _).trans target) (Set.mem_insert _ _) .right
  have appended : seq' = kept ++ [node] := by
    have turned := congrArg List.reverse split
    rwa [oriented, oriented, List.reverse_reverse, List.reverse_cons,
      List.reverse_reverse] at turned
  rw [Set.insert_sdiff_self_of_notMem outside, appended] at whole₂
  exact ⟨heap₂, ends₁.bind ends₂, whole₂, vals₂.trans vals₁⟩

/-- Two lists assigned twice have what was assigned last. -/
theorem update_twice {Value : Type} {func : Addr → Value} (apart : newList ≠ list)
    (first second third fourth : Value) :
    Function.update (Function.update (Function.update (Function.update func list first) newList
      second) list third) newList fourth =
        Function.update (Function.update func list third) newList fourth := by
  rw [Function.update_comm apart, Function.update_idem, Function.update_idem]

/-- One turn of the loop of `LTRIM`. -/
theorem Whole.trimFrom_step (whole : Whole heap seqs loose)
    (source : seqs list = some (front ++ node :: back)) (target : seqs newList = some kept)
    (apart : newList ≠ list) (first last : Int) :
    ∃ heap', Whole heap' (Function.update (Function.update seqs list (some (front ++ back))) newList
        (some (kept ++ [node]))) loose ∧ heap'.val = heap.val ∧
      ∀ {fewer : Nat} {final : ListHeap}, Ends (if first = last then return ()
          else ListCode.trimFrom list newList last fewer (first + 1) (after list back)) heap' ()
            final →
        Ends (ListCode.trimFrom list newList last (fewer + 1) first node) heap () final := by
  have ring := whole.represents.ring _ _ source
  have notHead : node ≠ list := ring.ne_head (List.mem_append_right _ List.mem_cons_self)
  have next : heap.next node = after list back := ring.neighbours.1
  obtain ⟨heap', moves, whole', vals⟩ := whole.moved source target apart
  refine ⟨heap', whole', vals, fun ends => ?_⟩
  rw [ListCode.trimFrom.eq_def]
  refine Ends.ifNeg notHead <| Ends.bind (ListCode.next_ends (whole.around source).1) ?_
  rw [next]
  exact moves.bind ends

/-- The loop of `LTRIM` moves the entries of the range. By induction on the entries after the first
of them. -/
theorem trimFrom_ends {fuel : Nat} (whole : Whole heap seqs loose)
    (source : seqs list = some (front ++ node :: back)) (target : seqs newList = some kept)
    (apart : newList ≠ list) (ordered : first ≤ last) (enough : back.length + 1 ≤ fuel) :
    ∃ heap' left, Ends (ListCode.trimFrom list newList last fuel first node) heap () heap' ∧
      Whole heap' (Function.update (Function.update seqs list (some left)) newList
        (some (kept ++ (node :: back).take (last - first + 1).toNat))) loose ∧
          heap'.val = heap.val := by
  induction back generalizing heap seqs node first kept fuel with
  | nil =>
    obtain ⟨fewer, rfl⟩ : ∃ fewer, fuel = fewer + 1 := ⟨fuel - 1, by omega⟩
    obtain ⟨heap₁, whole₁, vals₁, goesOn⟩ := whole.trimFrom_step source target apart first last
    refine ⟨heap₁, front ++ [], goesOn ?_, ?_, vals₁⟩
    · by_cases reached : first = last
      · exact Ends.ifPos reached (Ends.pure _ _)
      · rw [ListCode.trimFrom.eq_def]
        exact Ends.ifNeg reached (Ends.ifPos rfl (Ends.pure _ _))
    · have some : (last - first + 1).toNat = (last - first).toNat + 1 := by omega
      rw [some, List.take_succ_cons, List.take_nil]
      exact whole₁
  | cons other back inductionHypothesis =>
    rw [List.length_cons] at enough
    obtain ⟨fewer, rfl⟩ : ∃ fewer, fuel = fewer + 1 := ⟨fuel - 1, by omega⟩
    obtain ⟨heap₁, whole₁, vals₁, goesOn⟩ := whole.trimFrom_step source target apart first last
    by_cases reached : first = last
    · refine ⟨heap₁, front ++ other :: back, goesOn (Ends.ifPos reached (Ends.pure _ _)), ?_, vals₁⟩
      have one : (last - first + 1).toNat = 1 := by omega
      rw [one, List.take_succ_cons, List.take_zero]
      exact whole₁
    · have source₁ : Function.update (Function.update seqs list (some (front ++ other :: back)))
          newList (some (kept ++ [node])) list = some (front ++ other :: back) := by
        simp [apart.symm]
      obtain ⟨heap₂, left, ends, whole₂, vals₂⟩ := inductionHypothesis whole₁ source₁
        (Function.update_self _ _ _) (show first + 1 ≤ last by omega) (show _ ≤ fewer by omega)
      have count : (last - first + 1).toNat = (last - (first + 1) + 1).toNat + 1 := by omega
      rw [update_twice apart, List.append_assoc, List.singleton_append] at whole₂
      refine ⟨heap₂, left, goesOn (Ends.ifNeg reached ends), ?_, vals₂.trans vals₁⟩
      rw [count, List.take_succ_cons]
      exact whole₂

/-- `LTRIM`: the strings of the range are in a new list, and everything else of the old one is
released. -/
theorem Holding.ltrim {room : Addr} (holding : Holding heap lists lost)
    (present : lists list = some entries) (inRange : IsInt64 offset2)
    (dead : heap.live room = false) :
    ∃ heap', Ends (ListCode.ltrim list offset1 offset2 room) heap
        ((ranged entries offset1 offset2).map fun _ => room) heap' ∧
      Holding heap'
        (match ranged entries offset1 offset2 with
          | none => Function.update lists list none
          | some kept => Function.update (Function.update lists list none) room (some kept))
        lost := by
  obtain ⟨seqs, whole, tells⟩ := id holding
  obtain ⟨seq, found, shows⟩ := tells.found present
  have regular := whole.offsets found shows offset1 offset2
  have apart : room ≠ list := by
    rintro rfl
    exact Bool.false_ne_true (dead.symm.trans (whole.live found List.mem_cons_self))
  by_cases range : emptyRange (rangeStart offset1 entries.length) (fromEnd offset2 entries.length)
      entries.length
  · obtain ⟨heap', ends, holding'⟩ := holding.destroy present
    rw [if_pos range] at regular
    rw [ranged, if_pos range]
    exact ⟨heap', regular.bind (ends.bind (Ends.pure _ _)), holding'⟩
  · rw [if_neg range] at regular
    rw [ranged, if_neg range]
    have nonnegative := rangeStart_nonneg offset1 entries.length
    have small : fromEnd offset2 entries.length < 2 ^ 63 :=
      Int.lt_of_le_of_lt (fromEnd_range inRange _).2 (by decide)
    obtain ⟨firstSize, -, ordered, inside⟩ := toSize_range nonnegative small range
    generalize rangeStart offset1 entries.length = first at *
    generalize fromEnd offset2 entries.length = last at *
    obtain ⟨front, node, back, rfl, length, steps⟩ := whole.stepOn found shows inside
    have part := shows.part first.toNat (last - first + 1).toNat
    rw [← length, List.drop_left, length] at part
    have enough := whole.few found
    rw [List.length_append, List.length_cons] at enough
    obtain ⟨created, whole₁, tells₁, vals₁⟩ := whole.createdList tells dead
    obtain ⟨heap₂, left, trims, whole₂, vals₂⟩ := trimFrom_ends whole₁
      ((Function.update_of_ne apart.symm _ _).trans found) (Function.update_self _ _ _) apart
      ordered (show _ ≤ chainBound by omega)
    obtain ⟨heap₃, ends, whole₃, vals₃, -⟩ := whole₂.destroy
      ((Function.update_of_ne apart.symm _ _).trans (Function.update_self _ _ _))
    rw [update_twice apart.symm, Function.update_comm apart, List.nil_append] at whole₃
    have same (node : Addr) (belongs : Lies seqs node) : heap₃.val node = heap.val node := by
      rw [vals₃, vals₂]
      exact vals₁ node (whole.live_iff.mpr (Or.inl belongs))
    have own : Shows heap₃ ((node :: back).take (last - first + 1).toNat) _ :=
      part.congr fun inner member => same inner ⟨list, _, found, List.mem_cons_of_mem _
        (List.mem_append_right _ (List.mem_of_mem_take member))⟩
    refine ⟨heap₃, regular.bind ?_, _, whole₃,
      ((tells.congr same).updateSame rfl .none).updateSame rfl (.some own)⟩
    show Ends (do
      let entry ← ListCode.stepOn (toSize first) list
      ListCode.create room
      ListCode.trimFrom list room last chainBound first entry
      ListCode.destroy list
      return some room) heap _ heap₃
    rw [firstSize]
    exact steps.bind <| created.bind <| trims.bind <| ends.bind (Ends.pure _ _)

/-! ### Inserting -/

/-- The first string that is equal, if there is one. -/
theorem first_equal (entries : List Bss) (pivot : Bss) :
    (∀ entry ∈ entries, bssCmp entry pivot ≠ 0) ∨
      ∃ first entry others, entries = first ++ entry :: others ∧
        (∀ other ∈ first, bssCmp other pivot ≠ 0) ∧ bssCmp entry pivot = 0 := by
  induction entries with
  | nil => exact Or.inl fun _ member => absurd member List.not_mem_nil
  | cons entry rest inductionHypothesis =>
    by_cases equal : bssCmp entry pivot = 0
    · exact Or.inr ⟨[], entry, rest, rfl, fun _ member => absurd member List.not_mem_nil, equal⟩
    · rcases inductionHypothesis with none | ⟨first, found, others, rfl, different, equal'⟩
      · exact Or.inl (List.forall_mem_cons.mpr ⟨equal, none⟩)
      · exact Or.inr ⟨entry :: first, found, others, rfl,
          List.forall_mem_cons.mpr ⟨equal, different⟩, equal'⟩

/-- The search goes past strings that are not equal. -/
theorem findEqual_past {fuel : Nat} {value : Option Addr} (whole : Whole heap seqs loose)
    (found : seqs list = some (done ++ front ++ back)) (shows : Shows heap front entries)
    (different : ∀ entry ∈ entries, bssCmp entry pivot ≠ 0)
    (ends : Ends (ListCode.findEqual list pivot fuel (after list back)) heap value heap) :
    Ends (ListCode.findEqual list pivot (front.length + fuel) (after list (front ++ back))) heap
      value heap := by
  induction front generalizing done entries with
  | nil =>
    rw [List.length_nil, Nat.zero_add]
    exact ends
  | cons node front inductionHypothesis =>
    obtain ⟨val, rest, rfl, held, others⟩ := shows.cons_inv
    obtain ⟨unequal, differents⟩ := List.forall_mem_cons.mp different
    have place : seqs list = some (done ++ node :: (front ++ back)) := by
      rw [found, List.append_assoc, List.cons_append]
    have further := @inductionHypothesis (done ++ [node]) rest (append_shift ▸ found) others
      differents
    have ring := whole.represents.ring _ _ place
    have live := (whole.around place).1
    rw [List.length_cons, Nat.add_right_comm, ListCode.findEqual.eq_def]
    refine Ends.ifNeg (ring.ne_head (List.mem_append_right _ List.mem_cons_self)) <|
      Ends.bind (ListCode.str_ends live held) <| Ends.ifNeg unequal <|
        Ends.bind (ListCode.next_ends live) ?_
    rw [show heap.next (after list (node :: front ++ back)) = after list (front ++ back) from
      ring.neighbours.1]
    exact further

theorem findEqual_none (whole : Whole heap seqs loose) (found : seqs list = some seq)
    (shows : Shows heap seq entries) (different : ∀ entry ∈ entries, bssCmp entry pivot ≠ 0) :
    Ends (ListCode.findEqual list pivot chainBound (heap.next list)) heap none heap := by
  have ring := whole.represents.ring _ _ found
  have cut : seqs list = some ([] ++ seq ++ []) := by rw [found, List.append_nil, List.nil_append]
  have stops : Ends (ListCode.findEqual list pivot (chainBound - seq.length) (after list [])) heap
      none heap := by
    rw [ListCode.findEqual.eq_def]
    exact Ends.ifPos rfl (Ends.pure _ _)
  have ends := findEqual_past whole cut shows different stops
  rw [Nat.add_sub_cancel' (Nat.le_of_lt (whole.few found)), List.append_nil] at ends
  rw [ring.next_head]
  exact ends

theorem findEqual_first {first others : List Bss} {equalEntry : Bss} (whole : Whole heap seqs loose)
    (found : seqs list = some seq) (shows : Shows heap seq (first ++ equalEntry :: others))
    (different : ∀ other ∈ first, bssCmp other pivot ≠ 0) (equal : bssCmp equalEntry pivot = 0) :
    ∃ front node back, seq = front ++ node :: back ∧ Shows heap front first ∧
      heap.val node = some equalEntry ∧ Shows heap back others ∧
        Ends (ListCode.findEqual list pivot chainBound (heap.next list)) heap (some node) heap := by
  obtain ⟨front, node, back, rfl, same, held, behind⟩ := shows.split
  have ring := whole.represents.ring _ _ found
  have enough := whole.few found
  rw [List.length_append, List.length_cons] at enough
  obtain ⟨left, fuel⟩ : ∃ left, chainBound = front.length + (left + 1) :=
    ⟨chainBound - front.length - 1, by omega⟩
  have stops : Ends (ListCode.findEqual list pivot (left + 1) (after list (node :: back))) heap
      (some node) heap := by
    rw [ListCode.findEqual.eq_def]
    exact Ends.ifNeg (ring.ne_head (List.mem_append_right _ List.mem_cons_self)) <|
      Ends.bind (ListCode.str_ends (whole.around found).1 held) <| Ends.ifPos equal (Ends.pure _ _)
  have cut : seqs list = some ([] ++ front ++ node :: back) := by rw [found, List.nil_append]
  have ends := findEqual_past whole cut same different stops
  refine ⟨front, node, back, rfl, same, held, behind, ?_⟩
  rw [ring.next_head, fuel]
  exact ends

/-- `LINSERT`: a new entry is linked in beside the first one that is equal, if there is one. -/
theorem Holding.linsert {room : Addr} {after : Bool} (holding : Holding heap lists lost)
    (present : lists list = some entries) (dead : heap.live room = false) (pivot val : Bss) :
    ∃ heap', Ends (ListCode.linsert list pivot val after room) heap
        (((insertAt pivot val after entries).map fun new => (new.length : Int)).getD (-1)) heap' ∧
      Holding heap'
        (Function.update lists list (some ((insertAt pivot val after entries).getD entries)))
        lost := by
  obtain ⟨seqs, whole, tells⟩ := holding
  obtain ⟨seq, found, shows⟩ := tells.found present
  have listLive := whole.live found List.mem_cons_self
  rcases first_equal entries pivot with none | ⟨first, equalEntry, others, rfl, different, equal⟩
  · have search := findEqual_none whole found shows none
    rw [insertAt_none none]
    refine ⟨heap, Ends.bind (ListCode.next_ends listLive) <| search.bind (Ends.pure _ _), seqs,
      whole, ?_⟩
    rw [Option.getD_none, ← present, Function.update_eq_self]
    exact tells
  · obtain ⟨front, node, back, rfl, same, held, behind, search⟩ :=
      findEqual_first whole found shows different equal
    have kept (other : Addr) (belongs : Lies seqs other) :
        (listCreateEntry heap room val).val other = heap.val other := by
      refine Function.update_of_ne ?_ _ _
      rintro rfl
      exact (whole.dead_iff.mp dead).1 belongs
    have created := whole.createEntry dead val
    obtain ⟨heap', links, whole', vals, live⟩ :=
      created.insertedBeside found (Set.mem_insert _ _) after
    rw [Set.insert_sdiff_self_of_notMem (whole.dead_iff.mp dead).2] at whole'
    have told := tells.congr kept
    have own : Shows heap' (beside after front node room back)
        (beside after first equalEntry val others) := by
      have sameAs (other : Addr) (member : other ∈ front ++ node :: back) :
          heap'.val other = heap.val other := by
        rw [vals]
        exact kept other ⟨list, _, found, List.mem_cons_of_mem _ member⟩
      refine Shows.beside after (same.congr fun other member => ?_) ?_
        (behind.congr fun other member => ?_) ?_
      · exact sameAs other (List.mem_append_left _ member)
      · exact (sameAs node (List.mem_append_right _ List.mem_cons_self)).trans held
      · exact sameAs other (List.mem_append_right _ (List.mem_cons_of_mem _ member))
      · rw [vals]
        exact Function.update_self _ _ _
    rw [insertAt_first different equal]
    have alive := whole'.live (Function.update_self _ _ _) List.mem_cons_self
    have size : heap'.num list = (beside after first equalEntry val others).length :=
      (whole'.represents.num _ _ (Function.update_self _ _ _)).trans own.length
    refine ⟨heap', Ends.bind (ListCode.next_ends listLive) <| search.bind <| Ends.bind rfl <|
      links.bind <| Ends.bind (ListCode.num_ends alive) ?_, _, whole',
        told.updateSame vals (.some own)⟩
    rw [size]
    exact Ends.pure _ _

end PseudoRedis
