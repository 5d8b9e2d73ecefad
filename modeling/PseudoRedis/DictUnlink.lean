/-
This file proves what `dict_rm_nf` and `dict_rm` do to a dictionary in memory. The look-up
stops at the entry of the key, with the entry before it; one pointer is assigned, and the
entry is out of its chain while every other entry keeps its place. After `dict_rm_nf` the
entry itself is still allocated; after `dict_rm` it is not, nor are its key and its value,
and nothing else is lost.
-/

import PseudoRedis.DictHeap

namespace PseudoRedis

open Chains

variable {V : Type} {heap heap' : DictHeap V} {placed : Placement V}
  {spot other : Addr × DictEntry V} {front back : List (Addr × DictEntry V)} {hash : Nat}

/-- The address of the last entry of a prefix. -/
def lastAddr (front : List (Addr × DictEntry V)) : Option Addr := front.getLast?.map Prod.fst

/-- The address of the first entry of a suffix. -/
def headAddr (back : List (Addr × DictEntry V)) : Option Addr := back.head?.map Prod.fst

theorem lastAddr_concat (front : List (Addr × DictEntry V)) (spot : Addr × DictEntry V) :
    lastAddr (front ++ [spot]) = some spot.1 := by
  rw [lastAddr, List.getLast?_concat]
  rfl

/-! ### Links -/

/-- Two memories in which no more than links differ. -/
structure Relinked (heap heap' : DictHeap V) : Prop where
  fields : heap'.fields = heap.fields
  key : heap'.key = heap.key
  obj : heap'.obj = heap.obj
  power : heap'.power = heap.power
  bitMask : heap'.bitMask = heap.bitMask

theorem setNext_spec {addr key val : Addr} (fields : heap.fields addr = some (key, val))
    (target : Option Addr) :
    ∃ heap', heap.setNext addr target = .ok heap' ∧ Relinked heap heap' ∧
      heap'.entryNum = heap.entryNum ∧ heap'.hashTbl = heap.hashTbl ∧
      heap'.next = Function.update heap.next addr target := by
  have cell := DictHeap.entry_of_fields fields
  refine ⟨{ heap with entry := Function.update heap.entry addr (some ⟨key, val, target⟩) }, ?_,
    ⟨?_, rfl, rfl, rfl, rfl⟩, rfl, rfl, ?_⟩
  · simp only [DictHeap.setNext, cell, load, bind, Except.bind]
    rfl
  · funext other
    by_cases same : other = addr
    · subst same
      rw [fields]
      simp only [DictHeap.fields, Function.update_self, Option.map_some]
    · simp only [DictHeap.fields, Function.update_of_ne same]
  · funext other
    by_cases same : other = addr
    · subst same
      simp only [DictHeap.next, Function.update_self, Option.bind_some]
    · simp only [DictHeap.next, Function.update_of_ne same]

/-- The memory without an entry, its key and its value. -/
def DictHeap.released (heap : DictHeap V) (addr key val : Addr) : DictHeap V :=
  { heap with
    entry := Function.update heap.entry addr none
    key := Function.update heap.key key none
    obj := if val = setValPtr then heap.obj else Function.update heap.obj val none }

@[simp]
theorem released_fields {addr key val other : Addr} (different : other ≠ addr) :
    (heap.released addr key val).fields other = heap.fields other := by
  simp only [DictHeap.fields, DictHeap.released, Function.update_of_ne different]

@[simp]
theorem released_next {addr key val other : Addr} (different : other ≠ addr) :
    (heap.released addr key val).next other = heap.next other := by
  simp only [DictHeap.next, DictHeap.released, Function.update_of_ne different]

variable [DictVal V]

theorem Relinked.holds (relinked : Relinked heap heap') (holds : heap.Holds spot) :
    heap'.Holds spot := by
  obtain ⟨key, val, fields, rest⟩ := holds
  refine ⟨key, val, ?_, ?_⟩
  · rwa [relinked.fields]
  · rwa [relinked.key, relinked.obj]

/-- A memory with other links is laid out as its chains are. -/
theorem Relinked.lays {placed' : Placement V} (relinked : Relinked heap heap')
    (laid : heap.Lays placed) (sub : ∀ index, ∀ spot ∈ placed' index, spot ∈ placed index)
    (chains : ∀ index, Chain heap'.next (heap'.hashTbl index) ((placed' index).map Prod.fst))
    (wellFormed : (heap'.dict placed').WellFormed) : heap'.Lays placed' := by
  refine ⟨chains, fun index spot member => ?_, ?_, wellFormed⟩
  · exact relinked.holds (laid.holds index spot (sub index spot member))
  · intro index index' spot member other member' key key' val fields fields'
    rw [relinked.fields] at fields fields'
    exact laid.owned index index' spot (sub index spot member) other (sub index' other member')
      key key' val fields fields'

/-! ### The look-up -/

/-- One round of the look-up. The comparison of the pointers only saves the one of the texts. -/
theorem lookUpFrom_round {key : Addr} {name : Bss} (known : heap.key key = some name)
    (holds : heap.Holds spot) (fuel : Nat) (prev : Option Addr) :
    heap.lookUpFrom key (fuel + 1) ⟨some spot.1, prev⟩ =
      if bssCmp name spot.2.key = 0 then .ok ⟨some spot.1, prev⟩
      else heap.lookUpFrom key fuel ⟨heap.next spot.1, some spot.1⟩ := by
  obtain ⟨own, val, fields, held, -⟩ := holds
  have cell := DictHeap.entry_of_fields fields
  simp only [DictHeap.lookUpFrom, cell, known, held, load, bind, Except.bind]
  by_cases same : key = own
  · subst same
    have equal : bssCmp name spot.2.key = 0 := by
      rw [known] at held
      rw [Option.some.inj held]
      exact bssCmp_self _
    rw [if_pos rfl, if_pos equal]
    rfl
  · rw [if_neg same]
    rfl

/-- The look-up cuts the chain in front of the first entry with the key. -/
theorem lookUpFrom_spec {key : Addr} {name : Bss} (known : heap.key key = some name)
    (before todo : List (Addr × DictEntry V)) {fuel : Nat} {curr : Option Addr}
    (enough : todo.length < fuel) (holds : ∀ spot ∈ todo, heap.Holds spot)
    (chain : Chain heap.next curr (todo.map Prod.fst)) :
    ∃ passed rest, todo = passed ++ rest ∧
      heap.lookUpFrom key fuel ⟨curr, lastAddr before⟩ =
        .ok ⟨headAddr rest, lastAddr (before ++ passed)⟩ ∧
      (∀ spot ∈ passed, bssCmp name spot.2.key ≠ 0) ∧
      ∀ spot ∈ rest.head?, bssCmp name spot.2.key = 0 := by
  induction todo generalizing before fuel curr with
  | nil =>
    obtain rfl : curr = none := chain
    refine ⟨[], [], rfl, ?_, fun _ member => ?_, fun _ member => ?_⟩
    · rw [DictHeap.lookUpFrom, List.append_nil]
      rfl
    · cases member
    · cases member
  | cons spot todo inductionHypothesis =>
    obtain ⟨fuel, rfl⟩ : ∃ less, fuel = less + 1 :=
      Nat.exists_eq_add_one_of_ne_zero (Nat.ne_of_gt (Nat.zero_lt_of_lt enough))
    obtain ⟨rfl, tail⟩ : curr = some spot.1 ∧ _ := chain
    rw [lookUpFrom_round known (holds spot List.mem_cons_self)]
    by_cases stop : bssCmp name spot.2.key = 0
    · refine ⟨[], spot :: todo, rfl, ?_, fun _ member => ?_, ?_⟩
      · rw [if_pos stop, List.append_nil]
        rfl
      · cases member
      · rintro _ ⟨⟩
        exact stop
    · obtain ⟨passed, rest, rfl, found, others, stops⟩ := inductionHypothesis (before ++ [spot])
        (Nat.lt_of_succ_lt_succ enough)
        (fun other member => holds other (List.mem_cons_of_mem _ member)) tail
      rw [List.append_assoc, List.singleton_append, lastAddr_concat] at found
      refine ⟨spot :: passed, rest, rfl, (if_neg stop).trans found, ?_, stops⟩
      intro other member
      rcases List.mem_cons.mp member with rfl | inPassed
      · exact stop
      · exact others other inPassed

/-- The look-up over the pointers stops where the one of `Dict` does. -/
theorem dictLookUpHash_spec (laid : heap.Lays placed) {key : Addr} {name : Bss}
    (known : heap.key key = some name) :
    ∃ front rest, placed ((heap.dict placed).slot name) = front ++ rest ∧
      heap.dictLookUpHash ((heap.dict placed).slot name) key =
        .ok ⟨headAddr rest, lastAddr front⟩ ∧
      dictLookUpHash (heap.dict placed) ((heap.dict placed).slot name) name =
        walk name (front.map Prod.snd) (rest.map Prod.snd) ∧
      (∀ spot ∈ front, bssCmp name spot.2.key ≠ 0) ∧
      ∀ spot ∈ rest.head?, bssCmp name spot.2.key = 0 := by
  obtain ⟨front, rest, cut, found, passed, stops⟩ := lookUpFrom_spec known []
    (placed ((heap.dict placed).slot name)) (laid.length_lt _) (laid.holds _)
    (laid.chains ((heap.dict placed).slot name))
  refine ⟨front, rest, cut, found, ?_, passed, stops⟩
  have chain : (heap.dict placed).hashTbl ((heap.dict placed).slot name) =
      front.map Prod.snd ++ rest.map Prod.snd := by
    rw [← List.map_append, ← cut]
    rfl
  rw [dictLookUpHash, chain, walk_append, List.nil_append]
  intro entry member
  obtain ⟨spot, inFront, rfl⟩ := List.mem_map.mp member
  exact passed spot inFront

/-! ### The removal -/

/-- The first entry of a chain is taken out by the assignment of the slot. -/
theorem unlink_first (laid : heap.Lays placed) (chain : placed hash = spot :: back) (index : Nat) :
    Chain heap.next (Function.update heap.hashTbl hash (heap.next spot.1) index)
      ((Slots.set placed hash back index).map Prod.fst) := by
  by_cases same : index = hash
  · subst same
    have whole := laid.chains index
    rw [chain, List.map_cons] at whole
    rw [Slots.set_self, Function.update_self]
    exact whole.tail
  · rw [Slots.set_of_ne _ _ same, Function.update_of_ne same]
    exact laid.chains index

/-- Any other one by the assignment of the link before it. -/
theorem unlink_later (laid : heap.Lays placed)
    (chain : placed hash = front ++ other :: spot :: back) (index : Nat) :
    Chain (Function.update heap.next other.1 (heap.next spot.1)) (heap.hashTbl index)
      ((Slots.set placed hash (front ++ other :: back) index).map Prod.fst) := by
  have member : other ∈ placed hash := chain ▸ List.mem_append_right _ List.mem_cons_self
  by_cases same : index = hash
  · subst same
    have whole := laid.chains index
    have nodup := laid.nodup_slot index
    rw [chain, List.map_append, List.map_cons, List.map_cons] at whole nodup
    rw [Slots.set_self, List.map_append, List.map_cons]
    exact whole.unlink nodup
  · rw [Slots.set_of_ne _ _ same]
    refine (laid.chains index).congr fun addr visited => Function.update_of_ne ?_ _ _
    rintro rfl
    obtain ⟨another, inSlot, sameAddr⟩ := List.mem_map.mp visited
    exact same (laid.slot_eq inSlot member sameAddr)

/-- Assigning the link before an entry takes it out of its chain and changes no other chain. -/
theorem unlink_spec (laid : heap.Lays placed) (chain : placed hash = front ++ spot :: back) :
    ∃ heap', heap.unlink hash (lastAddr front) (heap.next spot.1) = .ok heap' ∧
      Relinked heap heap' ∧ heap'.entryNum = heap.entryNum ∧
      ∀ index, Chain heap'.next (heap'.hashTbl index)
        ((Slots.set placed hash (front ++ back) index).map Prod.fst) := by
  rcases List.eq_nil_or_concat front with rfl | ⟨init, prev, rfl⟩
  · exact ⟨{ heap with hashTbl := Function.update heap.hashTbl hash (heap.next spot.1) }, rfl,
      ⟨rfl, rfl, rfl, rfl, rfl⟩, rfl, unlink_first laid chain⟩
  · rw [List.concat_eq_append, List.append_assoc, List.singleton_append] at chain
    have member : prev ∈ placed hash := chain ▸ List.mem_append_right _ List.mem_cons_self
    obtain ⟨key, val, fields, -⟩ := laid.holds hash prev member
    obtain ⟨heap', set, relinked, count, table, next⟩ := setNext_spec fields (heap.next spot.1)
    refine ⟨heap', ?_, relinked, count, fun index => ?_⟩
    · rw [List.concat_eq_append, lastAddr_concat]
      exact set
    · rw [table, next, List.concat_eq_append, List.append_assoc, List.singleton_append]
      exact unlink_later laid chain index

/-- What `dict_rm_nf` does: nothing without an entry under the key, and otherwise it takes the first
one out. -/
theorem dictRmNf_spec (laid : heap.Lays placed) {key : Addr} {name : Bss}
    (known : heap.key key = some name) :
    (∃ prev, (∀ spot ∈ placed ((heap.dict placed).slot name), bssCmp name spot.2.key ≠ 0) ∧
      heap.dictRmNf key = .ok (heap, ⟨none, prev⟩) ∧
      dictRmNf (heap.dict placed) name = (heap.dict placed, none)) ∨
    ∃ heap' spot prev, spot ∈ placed ((heap.dict placed).slot name) ∧
      bssCmp name spot.2.key = 0 ∧ heap.dictRmNf key = .ok (heap', ⟨some spot.1, prev⟩) ∧
      Relinked heap heap' ∧ heap'.Lays (placed.without spot.1) ∧
      dictRmNf (heap.dict placed) name = (heap'.dict (placed.without spot.1), some spot.2) := by
  obtain ⟨front, rest, cut, found, walked, passed, stops⟩ := dictLookUpHash_spec laid known
  have looked : heap.dictLookUpHash (dictGetHash name &&& heap.bitMask).toNat key =
      .ok ⟨headAddr rest, lastAddr front⟩ := found
  cases rest with
  | nil =>
    refine Or.inl ⟨lastAddr front, ?_, ?_, ?_⟩
    · rwa [cut, List.append_nil]
    · simp only [DictHeap.dictRmNf, known, load, bind, Except.bind, looked]
      rfl
    · simp only [dictRmNf, walked, List.map_nil, walk]
  | cons spot back =>
    have equal := stops spot rfl
    have inSlot : spot ∈ placed ((heap.dict placed).slot name) :=
      cut ▸ List.mem_append_right _ List.mem_cons_self
    obtain ⟨key', val, fields, -⟩ := laid.holds _ spot inSlot
    have cell := DictHeap.entry_of_fields fields
    obtain ⟨heap', assigned, relinked, count, chains⟩ := unlink_spec laid cut
    have taken : dictRmNf (heap.dict placed) name =
        (({ heap' with entryNum := heap'.entryNum - 1 } : DictHeap V).dict
          (placed.without spot.1), some spot.2) := by
      rw [List.map_cons, walk, if_pos equal] at walked
      rw [dictRmNf_of_iter walked, ← laid.set_eq_without cut]
      simp only [DictHeap.dict, Dict.relink, Slots.map_set, List.map_append, relinked.power,
        relinked.bitMask, count]
    have kept : Relinked heap { heap' with entryNum := heap'.entryNum - 1 } :=
      ⟨relinked.fields, relinked.key, relinked.obj, relinked.power, relinked.bitMask⟩
    refine Or.inr ⟨_, spot, lastAddr front, inSlot, equal, ?_, kept, kept.lays laid ?_ ?_ ?_, taken⟩
    · have unlinked : heap.unlink (dictGetHash name &&& heap.bitMask).toNat (lastAddr front)
          (heap.next spot.1) = .ok heap' := assigned
      simp only [DictHeap.dictRmNf, known, load, bind, Except.bind, looked, headAddr,
        List.head?_cons, Option.map_some, cell, unlinked]
      rfl
    · exact fun index other member => (Placement.mem_without.mp member).1
    · rw [← laid.set_eq_without cut]
      exact chains
    · have wellFormed := dictRmNf_wellFormed laid.wellFormed name
      rwa [taken] at wellFormed

/-! ### The release -/

/-- An entry whose key and value are others survives the release. -/
theorem DictHeap.Holds.released (holds : heap.Holds other) {addr key val : Addr}
    (different : other.1 ≠ addr)
    (apart : ∀ key' val', heap.fields other.1 = some (key', val') →
      key' ≠ key ∧ (val' ≠ setValPtr → val' ≠ val)) : (heap.released addr key val).Holds other := by
  obtain ⟨key', val', fields, held, object⟩ := holds
  obtain ⟨otherKey, otherVal⟩ := apart key' val' fields
  refine ⟨key', val', (released_fields different).trans fields, ?_, ?_⟩
  · exact (Function.update_of_ne otherKey _ _).trans held
  · split at object
    · rename_i setVal
      rwa [if_pos setVal]
    · rename_i plain
      rw [if_neg plain]
      refine ⟨object.1, ?_⟩
      rw [← object.2, DictHeap.released]
      split
      · rfl
      · exact Function.update_of_ne (otherVal object.1) _ _

/-- Releasing an entry that is out of its chain. -/
theorem dictDestroyEntry_eq (holds : heap.Holds spot) (prev : Option Addr) {key val : Addr}
    (fields : heap.fields spot.1 = some (key, val)) :
    heap.dictDestroyEntry ⟨some spot.1, prev⟩ = .ok (heap.released spot.1 key val) := by
  obtain ⟨key', val', same, held, object⟩ := holds
  rw [fields] at same
  cases same
  have cell := DictHeap.entry_of_fields fields
  by_cases setVal : val = setValPtr
  · simp only [DictHeap.dictDestroyEntry, deref, cell, load, bind, Except.bind, DictHeap.freeKey,
      held, pure, Except.pure, if_pos setVal, DictHeap.freeEntry, DictHeap.released]
  · split at object
    · exact absurd object setVal
    · simp only [DictHeap.dictDestroyEntry, deref, cell, load, bind, Except.bind, DictHeap.freeKey,
        held, pure, Except.pure, if_neg setVal, DictHeap.freeEntry, DictHeap.destroyVal, object.2,
        DictHeap.released]

/-- Releasing an entry that is out of its chain, with its key and its value, leaves the others. -/
theorem released_lays (laid : heap.Lays placed) (relinked : Relinked heap heap')
    (laid' : heap'.Lays (placed.without spot.1)) (member : spot ∈ placed hash) {key val : Addr}
    (fields : heap.fields spot.1 = some (key, val)) :
    (heap'.released spot.1 key val).Lays (placed.without spot.1) := by
  refine ⟨fun index => ?_, fun index other inside => ?_, ?_, laid'.wellFormed⟩
  · refine (laid'.chains index).congr fun addr visited => ?_
    obtain ⟨other, inside, rfl⟩ := List.mem_map.mp visited
    exact released_next (Placement.mem_without.mp inside).2
  · obtain ⟨inPlaced, different⟩ := Placement.mem_without.mp inside
    refine (laid'.holds index other inside).released different fun key' val' fields' => ?_
    rw [relinked.fields] at fields'
    refine ⟨?_, fun plain => ?_⟩
    · rintro rfl
      exact different (congrArg Prod.fst (laid.eq_of_key inPlaced member fields' fields))
    · rintro rfl
      exact different (laid.owned index hash other inPlaced spot member key' key val' fields' fields
        plain)
  · intro index index' first inside second inside' key₁ key₂ val' fields₁ fields₂
    rw [released_fields (Placement.mem_without.mp inside).2] at fields₁
    rw [released_fields (Placement.mem_without.mp inside').2] at fields₂
    exact laid'.owned index index' first inside second inside' key₁ key₂ val' fields₁ fields₂

/-- What `dict_rm` does: nothing without an entry under the key, and otherwise it takes the first
one out and releases it. -/
theorem dictRm_spec (laid : heap.Lays placed) {key : Addr} {name : Bss}
    (known : heap.key key = some name) :
    ((∀ spot ∈ placed ((heap.dict placed).slot name), bssCmp name spot.2.key ≠ 0) ∧
      heap.dictRm key = .ok (heap, eNotFound) ∧
      dictRm (heap.dict placed) name = (heap.dict placed, eNotFound)) ∨
    ∃ heap' spot, spot ∈ placed ((heap.dict placed).slot name) ∧ bssCmp name spot.2.key = 0 ∧
      heap.dictRm key = .ok (heap', 0) ∧ heap'.entry spot.1 = none ∧
      heap'.power = heap.power ∧ heap'.Lays (placed.without spot.1) ∧
      dictRm (heap.dict placed) name = (heap'.dict (placed.without spot.1), 0) := by
  rcases dictRmNf_spec laid known with ⟨prev, others, run, absent⟩ |
    ⟨heap', spot, prev, member, equal, run, relinked, laid', taken⟩
  · refine Or.inl ⟨others, ?_, ?_⟩
    · rw [DictHeap.dictRm, run]
      rfl
    · rw [dictRm, absent]
  · obtain ⟨own, val, fields, -⟩ := laid.holds _ spot member
    have holds := relinked.holds (laid.holds _ spot member)
    have destroyed := dictDestroyEntry_eq holds prev (relinked.fields ▸ fields)
    refine Or.inr ⟨heap'.released spot.1 own val, spot, member, equal, ?_,
      Function.update_self _ _ _, relinked.power,
      released_lays laid relinked laid' member fields, ?_⟩
    · simp only [DictHeap.dictRm, run, bind, Except.bind, destroyed]
      rfl
    · rw [dictRm, taken]
      rfl

/-- The first entry with the key of an entry is that entry. -/
theorem DictHeap.Lays.eq_of_bssCmp (laid : heap.Lays placed) (member : spot ∈ placed hash)
    {index : Nat} (member' : other ∈ placed index) (equal : bssCmp spot.2.key other.2.key = 0) :
    other = spot := by
  have located := laid.wellFormed.located hash spot.2 (List.mem_map_of_mem member)
  have located' := laid.wellFormed.located index other.2 (List.mem_map_of_mem member')
  exact laid.eq_of_content member' member ((bssCmp_eq_zero_iff located.2 located'.2).mp equal).symm

/-! ### Removing the entry under an iterator -/

/-- What becomes of the entry an iterator stands on. -/
inductive Deletion where
  /-- the entry stays -/
  | keep
  /-- `dict_rm_nf` of its key -/
  | rmNf
  /-- `dict_rm` of its key -/
  | rm
  deriving DecidableEq

/-- The removal of the entry an iterator stands on. -/
def DictHeap.delete (heap : DictHeap V) (iter : EntryIter) :
    Deletion → Except HeapFault (DictHeap V)
  | .keep => .ok heap
  | .rmNf => do
      let curr ← deref iter.curr
      let cell ← load (heap.entry curr)
      let (heap, _) ← heap.dictRmNf cell.key
      return heap
  | .rm => do
      let curr ← deref iter.curr
      let cell ← load (heap.entry curr)
      let (heap, _) ← heap.dictRm cell.key
      return heap

/-- The placement afterwards. -/
def Placement.after (placed : Placement V) (addr : Addr) : Deletion → Placement V
  | .keep => placed
  | _ => placed.without addr

/-- The dictionary afterwards. -/
def Dict.after (dict : Dict V) (key : Bss) : Deletion → Dict V
  | .keep => dict
  | _ => (dictRmNf dict key).1

/-- `dict_rm_nf` with the key of an entry takes that entry out. -/
theorem dictRmNf_own (laid : heap.Lays placed) {index : Nat} (member : spot ∈ placed index)
    {key val : Addr} (fields : heap.fields spot.1 = some (key, val)) :
    ∃ heap' prev, heap.dictRmNf key = .ok (heap', ⟨some spot.1, prev⟩) ∧ Relinked heap heap' ∧
      heap'.Lays (placed.without spot.1) ∧
      heap'.dict (placed.without spot.1) = (dictRmNf (heap.dict placed) spot.2.key).1 := by
  obtain ⟨own, _, same, held, -⟩ := laid.holds index spot member
  rw [fields] at same
  cases same
  have located := laid.wellFormed.located index spot.2 (List.mem_map_of_mem member)
  rcases dictRmNf_spec laid held with ⟨-, others, -⟩ |
    ⟨heap', other, prev, member', equal, run, relinked, laid', taken⟩
  · exact absurd (bssCmp_self _) (others spot (by rwa [located.1]))
  · obtain rfl := laid.eq_of_bssCmp member member' equal
    exact ⟨heap', prev, run, relinked, laid', (congrArg Prod.fst taken).symm⟩

/-- Removing the entry the iterator stands on. -/
theorem delete_spec (laid : heap.Lays placed) {index : Nat} (member : spot ∈ placed index)
    (prev : Option Addr) (deletion : Deletion) :
    ∃ heap', heap.delete ⟨some spot.1, prev⟩ deletion = .ok heap' ∧
      heap'.Lays (placed.after spot.1 deletion) ∧ heap'.power = heap.power ∧
      heap'.dict (placed.after spot.1 deletion) =
        (heap.dict placed).after spot.2.key deletion := by
  obtain ⟨key, val, fields, held, -⟩ := laid.holds index spot member
  have cell := DictHeap.entry_of_fields fields
  cases deletion with
  | keep => exact ⟨heap, rfl, laid, rfl, rfl⟩
  | rmNf =>
    obtain ⟨heap', prev', run, relinked, laid', same⟩ := dictRmNf_own laid member fields
    refine ⟨heap', ?_, laid', relinked.power, same⟩
    simp only [DictHeap.delete, deref, cell, load, bind, Except.bind, run]
    rfl
  | rm =>
    have located := laid.wellFormed.located index spot.2 (List.mem_map_of_mem member)
    rcases dictRm_spec laid held with ⟨others, -⟩ |
      ⟨heap', other, member', equal, run, -, power, laid', taken⟩
    · exact absurd (bssCmp_self _) (others spot (by rwa [located.1]))
    · obtain rfl := laid.eq_of_bssCmp member member' equal
      have removed := congrArg Prod.fst taken
      rw [dictRm_fst] at removed
      refine ⟨heap', ?_, laid', power, removed.symm⟩
      simp only [DictHeap.delete, deref, cell, load, bind, Except.bind, run]
      rfl

end PseudoRedis
