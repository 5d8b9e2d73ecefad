/-
This file is about the memory of a dictionary while it is changed. The count is left aside,
since `dict_rename` gets it wrong; apart from it the table stays well formed. Two things
happen to a chain: it is cut behind an entry and goes on elsewhere, or one of its entries
gets another key or value. Every function of `dict.c` is a few of these steps.
-/

import PseudoRedis.DictMemory

namespace PseudoRedis

open Chains

variable {V : Type} {heap heap' : DictHeap V} {placed placed' : Placement V}
  {spot other : Addr × DictEntry V} {front back : List (Addr × DictEntry V)} {hash : Nat}

theorem Relinked.filed (relinked : Relinked heap heap') (filed : (heap.dict placed').Placed) :
    (heap'.dict placed').Placed := by
  have same : heap'.dict placed' = { heap.dict placed' with entryNum := heap'.entryNum } := by
    simp only [DictHeap.dict, relinked.power, relinked.bitMask]
  rw [same]
  exact filed.recount _

/-- A cell is its pointers. -/
theorem entry_congr {addr : Addr} (fields : heap'.fields addr = heap.fields addr)
    (next : heap'.next addr = heap.next addr) : heap'.entry addr = heap.entry addr := by
  unfold DictHeap.fields at fields
  unfold DictHeap.next at next
  cases held : heap.entry addr with
  | none =>
    rw [held, Option.map_none, Option.map_eq_none_iff] at fields
    exact fields
  | some cell =>
    rw [held] at fields next
    obtain ⟨cell', held', same⟩ := Option.map_eq_some_iff.mp fields
    rw [held'] at next ⊢
    obtain ⟨key, val, link⟩ := cell
    cases same
    exact congrArg (fun link => some (DictCell.mk cell'.key cell'.val link)) next

/-! ### Replacing what an entry points to -/

/-- The memory after an entry got another key and another value: the old ones are released, but not
`SET_VAL_PTR`. -/
def DictHeap.replaced (heap : DictHeap V) (addr key val oldKey oldVal : Addr) : DictHeap V :=
  { heap with
    entry := Function.update heap.entry addr (some ⟨key, val, heap.next addr⟩)
    key := Function.update heap.key oldKey none
    obj := if oldVal = setValPtr then heap.obj else Function.update heap.obj oldVal none }

@[simp]
theorem replaced_next (heap : DictHeap V) (addr key val oldKey oldVal : Addr) :
    (heap.replaced addr key val oldKey oldVal).next = heap.next := by
  funext other
  by_cases same : other = addr
  · subst same
    simp only [DictHeap.next, DictHeap.replaced, Function.update_self, Option.bind_some]
  · simp only [DictHeap.next, DictHeap.replaced, Function.update_of_ne same]

@[simp]
theorem replaced_fields_self (heap : DictHeap V) (addr key val oldKey oldVal : Addr) :
    (heap.replaced addr key val oldKey oldVal).fields addr = some (key, val) := by
  simp only [DictHeap.fields, DictHeap.replaced, Function.update_self, Option.map_some]

@[simp]
theorem replaced_fields_of_ne {addr key val oldKey oldVal other : Addr} (different : other ≠ addr) :
    (heap.replaced addr key val oldKey oldVal).fields other = heap.fields other := by
  simp only [DictHeap.fields, DictHeap.replaced, Function.update_of_ne different]

/-! ### Memory laid out in chains -/

variable [DictVal V]

/-- The memory of a dictionary, whatever its count says. -/
structure DictHeap.Laid (heap : DictHeap V) (placed : Placement V) : Prop where
  chains : ∀ index, Chain heap.next (heap.hashTbl index) ((placed index).map Prod.fst)
  holds : ∀ index, ∀ spot ∈ placed index, heap.Holds spot
  owned : ∀ index index', ∀ spot ∈ placed index, ∀ other ∈ placed index', ∀ key key' val,
    heap.fields spot.1 = some (key, val) → heap.fields other.1 = some (key', val) →
      val ≠ setValPtr → spot.1 = other.1
  filed : (heap.dict placed).Placed

/-- With the right count the dictionary is well formed. -/
theorem DictHeap.Laid.lays (laid : heap.Laid placed) :
    ({ heap with entryNum := (heap.dict placed).entries.length } : DictHeap V).Lays placed :=
  ⟨laid.chains, laid.holds, laid.owned, ⟨laid.filed.recount _, rfl⟩⟩

theorem DictHeap.Laid.count (laid : heap.Laid placed) (count : Int) :
    ({ heap with entryNum := count } : DictHeap V).Laid placed :=
  ⟨laid.chains, laid.holds, laid.owned, laid.filed.recount _⟩

/-- An entry that is in no chain, with a key and a value that no other entry has. -/
structure DictHeap.Loose (heap : DictHeap V) (placed : Placement V)
    (spot : Addr × DictEntry V) : Prop where
  holds : heap.Holds spot
  apart : ∀ index, ∀ other ∈ placed index, other.1 ≠ spot.1
  alone : ∀ index, ∀ other ∈ placed index, ∀ key val val', heap.fields spot.1 = some (key, val) →
    heap.fields other.1 ≠ some (key, val')
  owned : ∀ index, ∀ other ∈ placed index, ∀ key key' val, heap.fields spot.1 = some (key, val) →
    heap.fields other.1 = some (key', val) → val = setValPtr

/-- The slot of a key. -/
abbrev DictHeap.slot (heap : DictHeap V) (name : Bss) : Nat :=
  (dictGetHash name &&& heap.bitMask).toNat

/-! ### Whose something is -/

theorem DictHeap.Laid.linked_iff (laid : heap.Laid placed) {addr : Addr} :
    heap.Linked addr ↔ ∃ index, ∃ spot ∈ placed index, spot.1 = addr := by
  constructor
  · intro linked
    induction linked with
    | @first index addr points =>
      have head := (laid.chains index).start_eq
      rw [points] at head
      obtain ⟨spot, member, same⟩ := List.mem_map.mp (List.mem_of_head? head.symm)
      exact ⟨index, spot, member, same⟩
    | @behind addr other _ points inductionHypothesis =>
      obtain ⟨index, spot, member, rfl⟩ := inductionHypothesis
      obtain ⟨front, back, cut⟩ := List.append_of_mem member
      have whole := laid.chains index
      rw [cut, List.map_append, List.map_cons] at whole
      have head := whole.next_eq
      rw [points] at head
      obtain ⟨behind, inBack, same⟩ := List.mem_map.mp (List.mem_of_head? head.symm)
      exact ⟨index, behind, cut ▸ List.mem_append_right _ (List.mem_cons_of_mem _ inBack), same⟩
  · rintro ⟨index, spot, member, rfl⟩
    exact (laid.chains index).forall_mem (fun _ points => .first points)
      (fun _ _ linked points => .behind linked points) spot.1 (List.mem_map_of_mem member)

theorem DictHeap.Laid.ownsKey_iff (laid : heap.Laid placed) {key : Addr} :
    heap.OwnsKey key ↔
      ∃ index, ∃ spot ∈ placed index, ∃ val, heap.fields spot.1 = some (key, val) := by
  constructor
  · rintro ⟨addr, val, linked, fields⟩
    obtain ⟨index, spot, member, rfl⟩ := laid.linked_iff.mp linked
    exact ⟨index, spot, member, val, fields⟩
  · rintro ⟨index, spot, member, val, fields⟩
    exact ⟨spot.1, val, laid.linked_iff.mpr ⟨index, spot, member, rfl⟩, fields⟩

theorem DictHeap.Laid.ownsVal_iff (laid : heap.Laid placed) {val : Addr} :
    heap.OwnsVal val ↔ val ≠ setValPtr ∧
      ∃ index, ∃ spot ∈ placed index, ∃ key, heap.fields spot.1 = some (key, val) := by
  refine and_congr_right fun _ => ⟨?_, ?_⟩
  · rintro ⟨addr, key, linked, fields⟩
    obtain ⟨index, spot, member, rfl⟩ := laid.linked_iff.mp linked
    exact ⟨index, spot, member, key, fields⟩
  · rintro ⟨index, spot, member, key, fields⟩
    exact ⟨spot.1, key, laid.linked_iff.mpr ⟨index, spot, member, rfl⟩, fields⟩

/-! ### The look-up -/

/-- The look-up cuts the chain of the key. -/
theorem DictHeap.Laid.lookUp (laid : heap.Laid placed) {key : Addr} {name : Bss}
    (known : heap.key key = some name) :
    ∃ front rest, placed (heap.slot name) = front ++ rest ∧
      heap.dictLookUpHash (heap.slot name) key = .ok ⟨headAddr rest, lastAddr front⟩ ∧
      PseudoRedis.dictLookUpHash (heap.dict placed) (heap.slot name) name =
        ⟨front.map Prod.snd, rest.map Prod.snd⟩ ∧
      ∀ spot ∈ rest.head?, bssCmp name spot.2.key = 0 := by
  obtain ⟨front, rest, cut, found, passed, stops⟩ := lookUpFrom_spec known []
    (placed (heap.slot name)) (laid.lays.length_lt _) (laid.holds _) (laid.chains _)
  refine ⟨front, rest, cut, found, ?_, stops⟩
  have chain : (heap.dict placed).hashTbl (heap.slot name) =
      front.map Prod.snd ++ rest.map Prod.snd := by
    rw [← List.map_append, ← cut]
    rfl
  have others : ∀ entry ∈ front.map Prod.snd, bssCmp name entry.key ≠ 0 := by
    intro entry member
    obtain ⟨spot, inFront, rfl⟩ := List.mem_map.mp member
    exact passed spot inFront
  rw [PseudoRedis.dictLookUpHash, chain, walk_append others, List.nil_append]
  cases rest with
  | nil => rfl
  | cons spot back => rw [List.map_cons, walk, if_pos (stops spot rfl)]

/-! ### Cutting a chain -/

/-- One assignment lets the chain go on elsewhere behind any of its entries. -/
theorem DictHeap.Laid.assign (laid : heap.Laid placed) {rest nodes : List (Addr × DictEntry V)}
    (cut : placed hash = front ++ rest) {target : Option Addr}
    (goesOn : Chain heap.next target (nodes.map Prod.fst))
    (apart : ∀ spot ∈ front, ∀ other ∈ nodes, spot.1 ≠ other.1) :
    ∃ heap', heap.unlink hash (lastAddr front) target = .ok heap' ∧ Relinked heap heap' ∧
      heap'.entryNum = heap.entryNum ∧
      (∀ addr, ¬ heap.Linked addr → heap'.entry addr = heap.entry addr) ∧
      ∀ index, Chain heap'.next (heap'.hashTbl index)
        ((Slots.set placed hash (front ++ nodes) index).map Prod.fst) := by
  rcases List.eq_nil_or_concat front with rfl | ⟨init, prev, rfl⟩
  · refine ⟨{ heap with hashTbl := Function.update heap.hashTbl hash target }, rfl,
      ⟨rfl, rfl, rfl, rfl, rfl⟩, rfl, fun _ _ => rfl, fun index => ?_⟩
    by_cases same : index = hash
    · subst same
      rw [Slots.set_self, List.nil_append]
      show Chain heap.next (Function.update heap.hashTbl index target index) _
      rw [Function.update_self]
      exact goesOn
    · rw [Slots.set_of_ne _ _ same]
      show Chain heap.next (Function.update heap.hashTbl hash target index) _
      rw [Function.update_of_ne same]
      exact laid.chains index
  · rw [List.concat_eq_append] at cut apart ⊢
    have member : prev ∈ placed hash :=
      cut ▸ List.mem_append_left _ (List.mem_append_right _ List.mem_cons_self)
    obtain ⟨key, val, fields, -⟩ := laid.holds hash prev member
    obtain ⟨heap', set, relinked, count, table, next⟩ := setNext_spec fields target
    refine ⟨heap', ?_, relinked, count, fun addr apart => ?_, fun index => ?_⟩
    · rw [lastAddr_concat]
      exact set
    · refine entry_congr (congrFun relinked.fields addr) ?_
      rw [next]
      refine Function.update_of_ne (fun same => apart ?_) _ _
      exact laid.linked_iff.mpr ⟨hash, prev, member, same.symm⟩
    · rw [table, next]
      by_cases same : index = hash
      · subst same
        have whole := laid.chains index
        have nodup := laid.lays.nodup_slot index
        rw [cut, List.append_assoc, List.singleton_append, List.map_append, List.map_cons] at whole
        rw [cut, List.append_assoc, List.singleton_append, List.map_append, List.map_cons] at nodup
        rw [Slots.set_self, List.append_assoc, List.singleton_append, List.map_append,
          List.map_cons]
        refine whole.redirect (fun again => ?_) goesOn fun again => ?_
        · exact List.disjoint_of_nodup_append nodup again List.mem_cons_self
        · obtain ⟨other, inNodes, sameAddr⟩ := List.mem_map.mp again
          exact apart prev (List.mem_append_right _ List.mem_cons_self) other inNodes sameAddr.symm
      · rw [Slots.set_of_ne _ _ same]
        refine (laid.chains index).congr fun addr visited => Function.update_of_ne ?_ _ _
        rintro rfl
        obtain ⟨another, inSlot, sameAddr⟩ := List.mem_map.mp visited
        exact same (laid.lays.slot_eq inSlot member sameAddr)

/-- A loose entry is hung behind the last one of a chain. -/
theorem DictHeap.Laid.link (laid : heap.Laid placed) (loose : heap.Loose placed spot)
    (last : heap.next spot.1 = none)
    (filed : (heap.dict (Slots.set placed hash (placed hash ++ [spot]))).Placed) :
    ∃ heap', heap.link hash (lastAddr (placed hash)) spot.1 = .ok heap' ∧ Relinked heap heap' ∧
      heap'.entryNum = heap.entryNum ∧
      (∀ addr, ¬ heap.Linked addr → heap'.entry addr = heap.entry addr) ∧
      heap'.Laid (Slots.set placed hash (placed hash ++ [spot])) := by
  have goesOn : Chain heap.next (some spot.1) (List.map Prod.fst [spot]) := ⟨rfl, last⟩
  obtain ⟨heap', assigned, relinked, count, others, chains⟩ :=
    laid.assign (List.append_nil (placed hash)).symm goesOn fun other member another inOne => by
      rw [List.mem_singleton.mp inOne]
      exact loose.apart hash other member
  have linked : heap.link hash (lastAddr (placed hash)) spot.1 = .ok heap' := by
    rw [← assigned]
    cases lastAddr (placed hash) <;> rfl
  have member {index : Nat} {other : Addr × DictEntry V}
      (inside : other ∈ Slots.set placed hash (placed hash ++ [spot]) index) :
      other ∈ placed index ∨ other = spot := by
    by_cases same : index = hash
    · subst same
      rw [Slots.set_self] at inside
      exact (List.mem_append.mp inside).imp_right List.mem_singleton.mp
    · rw [Slots.set_of_ne _ _ same] at inside
      exact Or.inl inside
  refine ⟨heap', linked, relinked, count, others, chains, fun index other inside => ?_, ?_,
    relinked.filed filed⟩
  · rcases member inside with old | rfl
    · exact relinked.holds (laid.holds index other old)
    · exact relinked.holds loose.holds
  · intro index index' first inside second inside' key key' val fields fields' plain
    rw [relinked.fields] at fields fields'
    rcases member inside with old | rfl
    · rcases member inside' with old' | rfl
      · exact laid.owned index index' first old second old' key key' val fields fields' plain
      · exact absurd (loose.owned index first old key' key val fields' fields) plain
    · rcases member inside' with old' | rfl
      · exact absurd (loose.owned index' second old' key key' val fields fields') plain
      · rfl

/-- An entry is taken out of its chain, and is loose then. -/
theorem DictHeap.Laid.remove (laid : heap.Laid placed) (cut : placed hash = front ++ spot :: back)
    (filed : (heap.dict (placed.without spot.1)).Placed) :
    ∃ heap', heap.unlink hash (lastAddr front) (heap.next spot.1) = .ok heap' ∧
      Relinked heap heap' ∧ heap'.entryNum = heap.entryNum ∧
      (∀ addr, ¬ heap.Linked addr → heap'.entry addr = heap.entry addr) ∧
      heap'.Laid (placed.without spot.1) ∧ heap'.Loose (placed.without spot.1) spot := by
  have member : spot ∈ placed hash := cut ▸ List.mem_append_right _ List.mem_cons_self
  have nodup := laid.lays.nodup_slot hash
  have whole := laid.chains hash
  rw [cut, List.map_append, List.map_cons] at nodup whole
  obtain ⟨heap', assigned, relinked, count, others, chains⟩ := laid.assign cut whole.behind
    fun other inFront another inBack same =>
      List.disjoint_of_nodup_append nodup (List.mem_map_of_mem inFront)
        (same ▸ List.mem_cons_of_mem _ (List.mem_map_of_mem inBack))
  have apart {index : Nat} {other : Addr × DictEntry V}
      (inside : other ∈ placed.without spot.1 index) : other ∈ placed index ∧ other.1 ≠ spot.1 :=
    Placement.mem_without.mp inside
  have without : Slots.set placed hash (front ++ back) = placed.without spot.1 :=
    laid.lays.set_eq_without cut
  rw [without] at chains
  refine ⟨heap', assigned, relinked, count, others, ⟨chains, fun index other inside => ?_, ?_,
    relinked.filed filed⟩, relinked.holds (laid.holds hash spot member), ?_, ?_, ?_⟩
  · exact relinked.holds (laid.holds index other (apart inside).1)
  · intro index index' first inside second inside' key key' val fields fields'
    rw [relinked.fields] at fields fields'
    exact laid.owned index index' first (apart inside).1 second (apart inside').1 key key' val
      fields fields'
  · exact fun index other inside => (apart inside).2
  · intro index other inside key val val' fields fields'
    rw [relinked.fields] at fields fields'
    exact (apart inside).2
      (congrArg Prod.fst (laid.lays.eq_of_key (apart inside).1 member fields' fields))
  · intro index other inside key key' val fields fields'
    rw [relinked.fields] at fields fields'
    by_contra plain
    have same := laid.owned hash index spot member other (apart inside).1 key key' val fields
      fields' plain
    exact (apart inside).2 same.symm

/-- `dict_rm_nf` does nothing without an entry under the key; otherwise it takes the entry out. -/
theorem DictHeap.Laid.rmNf (laid : heap.Laid placed) {key : Addr} {name : Bss}
    (known : heap.key key = some name) :
    (∃ prev, heap.dictRmNf key = .ok (heap, ⟨none, prev⟩) ∧
      PseudoRedis.dictRmNf (heap.dict placed) name = (heap.dict placed, none)) ∨
    ∃ heap' spot prev, spot ∈ placed (heap.slot name) ∧
      heap.dictRmNf key = .ok (heap', ⟨some spot.1, prev⟩) ∧ Relinked heap heap' ∧
      (∀ addr, ¬ heap.Linked addr → heap'.entry addr = heap.entry addr) ∧
      heap'.Laid (placed.without spot.1) ∧ heap'.Loose (placed.without spot.1) spot ∧
      PseudoRedis.dictRmNf (heap.dict placed) name =
        (heap'.dict (placed.without spot.1), some spot.2) ∧
      bssCmp name spot.2.key = 0 ∧
      PseudoRedis.dictLookUp (heap.dict placed) name = some spot.2.val := by
  obtain ⟨front, rest, cut, found, walked, stops⟩ := laid.lookUp known
  cases rest with
  | nil =>
    refine Or.inl ⟨lastAddr front, ?_, ?_⟩
    · simp only [DictHeap.dictRmNf, known, load, bind, Except.bind, found]
      rfl
    · have absent : PseudoRedis.dictLookUpHash (heap.dict placed) ((heap.dict placed).slot name)
          name = ⟨front.map Prod.snd, []⟩ := walked
      simp only [PseudoRedis.dictRmNf, absent]
  | cons spot back =>
    have member : spot ∈ placed (heap.slot name) :=
      cut ▸ List.mem_append_right _ List.mem_cons_self
    obtain ⟨key', val, fields, -⟩ := laid.holds _ spot member
    have cell := DictHeap.entry_of_fields fields
    have kept : (heap.dict (placed.without spot.1)).hashTbl =
        Slots.set (heap.dict placed).hashTbl (heap.slot name)
          (front.map Prod.snd ++ back.map Prod.snd) := by
      rw [← laid.lays.set_eq_without cut]
      simp only [DictHeap.dict, Slots.map_set, List.map_append]
    have taken : PseudoRedis.dictRmNf (heap.dict placed) name =
        ({ heap.dict (placed.without spot.1) with entryNum := heap.entryNum - 1 },
          some spot.2) := by
      rw [dictRmNf_of_iter walked]
      exact congrArg (fun table =>
        (Dict.mk table heap.power (heap.entryNum - 1) heap.bitMask, some spot.2)) kept.symm
    have filed := dictRmNf_placed laid.filed name
    rw [taken] at filed
    obtain ⟨heap', assigned, relinked, count, others, laid', loose⟩ :=
      laid.remove cut (filed.recount heap.entryNum)
    have renumbered : Relinked heap { heap' with entryNum := heap'.entryNum - 1 } :=
      ⟨relinked.fields, relinked.key, relinked.obj, relinked.power, relinked.bitMask⟩
    have iter : PseudoRedis.dictLookUpIter (heap.dict placed) name =
        ⟨front.map Prod.snd, spot.2 :: back.map Prod.snd⟩ := walked
    refine Or.inr ⟨{ heap' with entryNum := heap'.entryNum - 1 }, spot, lastAddr front, member, ?_,
      renumbered, others, laid'.count _, ⟨loose.holds, loose.apart, loose.alone, loose.owned⟩, ?_,
      stops spot rfl, ?_⟩
    · simp only [DictHeap.dictRmNf, known, load, bind, Except.bind, found, headAddr,
        List.head?_cons, Option.map_some, cell, assigned]
      rfl
    · rw [taken]
      simp only [DictHeap.dict, relinked.power, relinked.bitMask, count]
    · rw [PseudoRedis.dictLookUp, iter]
      rfl

/-! ### What else happens in memory -/

/-- What an entry stands for is read from its cell, its key and its value. -/
theorem DictHeap.Holds.same (holds : heap.Holds spot)
    (entry : heap'.entry spot.1 = heap.entry spot.1)
    (keys : ∀ key val, heap.fields spot.1 = some (key, val) → heap'.key key = heap.key key)
    (vals : ∀ key val, heap.fields spot.1 = some (key, val) → val ≠ setValPtr →
      heap'.obj val = heap.obj val) : heap'.Holds spot := by
  obtain ⟨key, val, fields, held, object⟩ := holds
  have fields' : heap'.fields spot.1 = some (key, val) := by
    rw [← fields, DictHeap.fields, entry, DictHeap.fields]
  refine ⟨key, val, fields', (keys key val fields).trans held, ?_⟩
  split at object
  · rename_i setVal
    rwa [if_pos setVal]
  · rename_i plain
    rw [if_neg plain]
    exact ⟨object.1, (vals key val fields object.1).trans object.2⟩

/-- Nothing outside the dictionary matters to it. -/
theorem DictHeap.Laid.frame (laid : heap.Laid placed) (table : heap'.hashTbl = heap.hashTbl)
    (power : heap'.power = heap.power) (bitMask : heap'.bitMask = heap.bitMask)
    (entries : ∀ addr, heap.Linked addr → heap'.entry addr = heap.entry addr)
    (keys : ∀ key, heap.OwnsKey key → heap'.key key = heap.key key)
    (vals : ∀ val, heap.OwnsVal val → heap'.obj val = heap.obj val) : heap'.Laid placed := by
  have same {index : Nat} {spot : Addr × DictEntry V} (member : spot ∈ placed index) :
      heap'.entry spot.1 = heap.entry spot.1 :=
    entries spot.1 (laid.linked_iff.mpr ⟨index, spot, member, rfl⟩)
  have fields {index : Nat} {spot : Addr × DictEntry V} (member : spot ∈ placed index) :
      heap'.fields spot.1 = heap.fields spot.1 := by
    rw [DictHeap.fields, same member, DictHeap.fields]
  refine ⟨fun index => ?_, fun index spot member => ?_, ?_, ?_⟩
  · rw [table]
    refine (laid.chains index).congr fun addr visited => ?_
    obtain ⟨spot, member, rfl⟩ := List.mem_map.mp visited
    rw [DictHeap.next, same member, DictHeap.next]
  · refine (laid.holds index spot member).same (same member) (fun key val own => ?_)
      fun key val own plain => ?_
    · exact keys key (laid.ownsKey_iff.mpr ⟨index, spot, member, val, own⟩)
    · exact vals val (laid.ownsVal_iff.mpr ⟨plain, index, spot, member, key, own⟩)
  · intro index index' spot member other member' key key' val own own'
    rw [fields member] at own
    rw [fields member'] at own'
    exact laid.owned index index' spot member other member' key key' val own own'
  · have dict : heap'.dict placed = { heap.dict placed with entryNum := heap'.entryNum } := by
      simp only [DictHeap.dict, power, bitMask]
    rw [dict]
    exact laid.filed.recount _

/-! ### Replacing what an entry points to -/

theorem DictHeap.Laid.mem_replaced (laid : heap.Laid placed)
    (cut : placed hash = front ++ spot :: back) {entry : DictEntry V} {index : Nat}
    (inside : other ∈ Slots.set placed hash (front ++ (spot.1, entry) :: back) index) :
    other = (spot.1, entry) ∨ other ∈ placed index ∧ other.1 ≠ spot.1 := by
  have member : spot ∈ placed hash := cut ▸ List.mem_append_right _ List.mem_cons_self
  by_cases same : index = hash
  · subst same
    have nodup := laid.lays.nodup_slot index
    rw [cut, List.map_append, List.map_cons] at nodup
    have apart := (List.nodup_cons.mp (List.nodup_middle.mp nodup)).1
    rw [Slots.set_self, List.mem_append, List.mem_cons] at inside
    have rest (others : other ∈ front ++ back) : other ∈ placed index ∧ other.1 ≠ spot.1 := by
      refine ⟨?_, fun equal => apart ?_⟩
      · rw [cut]
        exact List.mem_append.mpr
          ((List.mem_append.mp others).imp_right (List.mem_cons_of_mem spot))
      · rw [← List.map_append]
        exact List.mem_map.mpr ⟨other, others, equal⟩
    rcases inside with inFront | here | inBack
    · exact Or.inr (rest (List.mem_append_left _ inFront))
    · exact Or.inl here
    · exact Or.inr (rest (List.mem_append_right _ inBack))
  · rw [Slots.set_of_ne _ _ same] at inside
    exact Or.inr ⟨inside, fun equal => same (laid.lays.slot_eq inside member equal)⟩

/-- The dictionary with another key and value in an entry. -/
theorem DictHeap.Laid.replaced (laid : heap.Laid placed)
    (cut : placed hash = front ++ spot :: back) {key val oldKey oldVal : Addr} {entry : DictEntry V}
    (fields : heap.fields spot.1 = some (oldKey, oldVal)) (known : heap.key key = some entry.key)
    (freshKey : ¬ heap.OwnsKey key) (valAt : heap.ValAt val entry.val)
    (freshVal : ¬ heap.OwnsVal val)
    (filed : (heap.dict (Slots.set placed hash (front ++ (spot.1, entry) :: back))).Placed) :
    (heap.replaced spot.1 key val oldKey oldVal).Laid
      (Slots.set placed hash (front ++ (spot.1, entry) :: back)) := by
  have member : spot ∈ placed hash := cut ▸ List.mem_append_right _ List.mem_cons_self
  have split {index : Nat} {other : Addr × DictEntry V}
      (inside : other ∈ Slots.set placed hash (front ++ (spot.1, entry) :: back) index) :
      other = (spot.1, entry) ∨ other ∈ placed index ∧ other.1 ≠ spot.1 :=
    laid.mem_replaced cut inside
  have notOld : key ≠ oldKey := fun same =>
    freshKey (same ▸ laid.ownsKey_iff.mpr ⟨hash, spot, member, oldVal, fields⟩)
  have notDropped (plain : val ≠ setValPtr) : val ≠ oldVal := fun same =>
    freshVal (laid.ownsVal_iff.mpr ⟨plain, hash, spot, member, oldKey, same ▸ fields⟩)
  have addrs : (front ++ (spot.1, entry) :: back).map Prod.fst = (placed hash).map Prod.fst := by
    rw [cut, List.map_append, List.map_append]
    rfl
  refine ⟨fun index => ?_, fun index other inside => ?_, ?_, filed⟩
  · rw [replaced_next]
    by_cases same : index = hash
    · subst same
      rw [Slots.set_self, addrs]
      exact laid.chains index
    · rw [Slots.set_of_ne _ _ same]
      exact laid.chains index
  · rcases split inside with rfl | ⟨old, different⟩
    · refine ⟨key, val, replaced_fields_self _ _ _ _ _ _, ?_, ?_⟩
      · exact (Function.update_of_ne notOld _ _).trans known
      · unfold DictHeap.ValAt at valAt
        split at valAt
        · rename_i setVal
          rwa [if_pos setVal]
        · rename_i plain
          rw [if_neg plain]
          refine ⟨valAt.1, ?_⟩
          rw [← valAt.2, DictHeap.replaced]
          split
          · rfl
          · exact Function.update_of_ne (notDropped valAt.1) _ _
    · refine (laid.holds index other old).same (Function.update_of_ne different _ _)
        (fun key' val' own => Function.update_of_ne ?_ _ _) fun key' val' own plain => ?_
      · rintro rfl
        exact different (congrArg Prod.fst (laid.lays.eq_of_key old member own fields))
      · rw [DictHeap.replaced]
        split
        · rfl
        · refine Function.update_of_ne ?_ _ _
          rintro rfl
          exact different (laid.owned index hash other old spot member key' oldKey val' own fields
            plain)
  · intro index index' first inside second inside' key₁ key₂ val' own own' plain
    have mine {index : Nat} {other : Addr × DictEntry V} (old : other ∈ placed index)
        (different : other.1 ≠ spot.1) {key' : Addr}
        (self : (heap.replaced spot.1 key val oldKey oldVal).fields spot.1 = some (key₁, val') ∨
          (heap.replaced spot.1 key val oldKey oldVal).fields spot.1 = some (key₂, val'))
        (theirs : (heap.replaced spot.1 key val oldKey oldVal).fields other.1 =
          some (key', val')) : False := by
      rw [replaced_fields_of_ne different] at theirs
      rw [replaced_fields_self] at self
      have same : val = val' := by
        rcases self with self | self <;> exact congrArg Prod.snd (Option.some.inj self)
      exact freshVal (laid.ownsVal_iff.mpr ⟨same ▸ plain, index, other, old, key', same ▸ theirs⟩)
    rcases split inside with rfl | ⟨old, different⟩
    · rcases split inside' with rfl | ⟨old', different'⟩
      · rfl
      · exact (mine old' different' (Or.inl own) own').elim
    · rcases split inside' with rfl | ⟨old', different'⟩
      · exact (mine old different (Or.inr own') own).elim
      · rw [replaced_fields_of_ne different] at own
        rw [replaced_fields_of_ne different'] at own'
        exact laid.owned index index' first old second old' key₁ key₂ val' own own' plain

/-! ### Accounts -/

/-- The account is kept entry by entry. -/
theorem DictHeap.Laid.accounts (laid : heap.Laid placed)
    (spots : ∀ index, ∀ spot ∈ placed index, ∀ key val, heap.fields spot.1 = some (key, val) →
      (heap'.Linked spot.1 ∨ heap'.entry spot.1 = none) ∧
        (heap'.OwnsKey key ∨ heap'.key key = none) ∧
        (val ≠ setValPtr → heap'.OwnsVal val ∨ heap'.obj val = none))
    (otherEntries : ∀ addr, ¬ heap.Linked addr → heap.entry addr ≠ none →
      heap'.entry addr = heap.entry addr)
    (otherKeys : ∀ key, ¬ heap.OwnsKey key → heap'.key key = heap.key key)
    (otherVals : ∀ val, ¬ heap.OwnsVal val → heap'.obj val = heap.obj val) :
    heap.Accounts heap' := by
  refine ⟨fun addr linked => ?_, fun key owns => ?_, fun val owns => ?_, otherEntries, otherKeys,
    otherVals⟩
  · obtain ⟨index, spot, member, rfl⟩ := laid.linked_iff.mp linked
    obtain ⟨key, val, fields, -⟩ := laid.holds index spot member
    exact (spots index spot member key val fields).1
  · obtain ⟨index, spot, member, val, fields⟩ := laid.ownsKey_iff.mp owns
    exact (spots index spot member key val fields).2.1
  · obtain ⟨plain, index, spot, member, key, fields⟩ := laid.ownsVal_iff.mp owns
    exact (spots index spot member key val fields).2.2 plain

/-- An entry that is still there keeps what it points to. -/
theorem DictHeap.Laid.keeps (laid' : heap'.Laid placed') {index : Nat}
    (member : spot ∈ placed' index) {key val : Addr}
    (fields : heap'.fields spot.1 = some (key, val)) :
    (heap'.Linked spot.1 ∨ heap'.entry spot.1 = none) ∧
      (heap'.OwnsKey key ∨ heap'.key key = none) ∧
      (val ≠ setValPtr → heap'.OwnsVal val ∨ heap'.obj val = none) :=
  ⟨Or.inl (laid'.linked_iff.mpr ⟨index, spot, member, rfl⟩),
    Or.inl (laid'.ownsKey_iff.mpr ⟨index, spot, member, val, fields⟩),
    fun plain => Or.inl (laid'.ownsVal_iff.mpr ⟨plain, index, spot, member, key, fields⟩)⟩

end PseudoRedis
