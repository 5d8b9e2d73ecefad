/-
This file embeds the pointers of `dict.c`. An entry is a cell with pointers to its key, its
value and the entry behind it; a slot of the table points to the first entry of its chain.
Every key, value and entry is allocated or it is not, and reading or releasing one that is
not ends the run, so that a run that comes to its end has followed no freed pointer.

The entries of a dictionary in memory are placed: each stands at an address, slot by slot.
A placement gives the table of `Dict`, and `dict_rm_nf` and `dict_rm` do to that table what
`Dict` says they do.
-/

import PseudoRedis.DictMap
import PseudoRedis.Lib.Chains
import PseudoRedis.ListRing

namespace PseudoRedis

open Chains

variable {V : Type}

/-! ### Memory -/

/-- How a run over the pointers goes wrong. -/
inductive HeapFault where
  /-- a `NULL` pointer is dereferenced -/
  | nullPointer
  /-- what is read, assigned or released is not allocated, or not any more -/
  | notAllocated
  /-- a chain has more entries than there are addresses -/
  | endless

/-- The fields of a `dict_entry_t`. -/
structure DictCell where
  key : Addr
  val : Addr
  next : Option Addr

/-- `dict_iter_t`: the entry the iterator stands on and the one before it. -/
structure EntryIter where
  curr : Option Addr
  prev : Option Addr

theorem address_lt (number : Nat) : number % 2 ^ 64 < 2 ^ 64 := Nat.mod_lt _ (by decide)

/-- The address with a number. -/
def address (number : Nat) : Addr := ⟨number % 2 ^ 64, address_lt number⟩

/-- `SET_VAL_PTR`. -/
def setValPtr : Addr := address 1

/-- A `dict_t` with the entries, keys and values that are allocated. -/
structure DictHeap (V : Type) where
  entry : Addr → Option DictCell
  key : Addr → Option Bss
  obj : Addr → Option V
  hashTbl : Nat → Option Addr
  power : Nat
  entryNum : Int
  bitMask : UInt32

/-- Dereferencing a pointer. -/
def deref : Option Addr → Except HeapFault Addr
  | some addr => .ok addr
  | none => .error .nullPointer

/-- What lies at an address. -/
def load {Value : Type} : Option Value → Except HeapFault Value
  | some value => .ok value
  | none => .error .notAllocated

/-- No chain of distinct entries is longer. -/
def chainBound : Nat := 2 ^ 64 + 1

namespace DictHeap

/-- The assignment `entry->next = target`. -/
def setNext (heap : DictHeap V) (entry : Addr) (target : Option Addr) :
    Except HeapFault (DictHeap V) := do
  let cell ← load (heap.entry entry)
  return { heap with
    entry := Function.update heap.entry entry (some { cell with next := target }) }

def freeEntry (heap : DictHeap V) (entry : Addr) : Except HeapFault (DictHeap V) := do
  let _ ← load (heap.entry entry)
  return { heap with entry := Function.update heap.entry entry none }

def freeKey (heap : DictHeap V) (key : Addr) : Except HeapFault (DictHeap V) := do
  let _ ← load (heap.key key)
  return { heap with key := Function.update heap.key key none }

/-- `val->op->destroy(val)`. -/
def destroyVal (heap : DictHeap V) (val : Addr) : Except HeapFault (DictHeap V) := do
  let _ ← load (heap.obj val)
  return { heap with obj := Function.update heap.obj val none }

/-! ### The operations -/

/-- The loop of the look-up, through at most `fuel` entries. -/
def lookUpFrom (heap : DictHeap V) (key : Addr) : Nat → EntryIter → Except HeapFault EntryIter
  | _, ⟨none, prev⟩ => .ok ⟨none, prev⟩
  | 0, ⟨some _, _⟩ => .error .endless
  | fuel + 1, ⟨some curr, prev⟩ => do
      let cell ← load (heap.entry curr)
      if key = cell.key then
        return ⟨some curr, prev⟩
      else
        let sought ← load (heap.key key)
        let found ← load (heap.key cell.key)
        if bssCmp sought found = 0 then
          return ⟨some curr, prev⟩
        else
          lookUpFrom heap key fuel ⟨cell.next, some curr⟩

def dictLookUpHash (heap : DictHeap V) (hash : Nat) (key : Addr) : Except HeapFault EntryIter :=
  lookUpFrom heap key chainBound ⟨heap.hashTbl hash, none⟩

/-- The assignment that takes an entry out of its chain. -/
def unlink (heap : DictHeap V) (hash : Nat) (prev next : Option Addr) :
    Except HeapFault (DictHeap V) :=
  match prev with
  | none => .ok { heap with hashTbl := Function.update heap.hashTbl hash next }
  | some prev => heap.setNext prev next

def dictRmNf (heap : DictHeap V) (key : Addr) : Except HeapFault (DictHeap V × EntryIter) := do
  let name ← load (heap.key key)
  let hash := (dictGetHash name &&& heap.bitMask).toNat
  let target ← heap.dictLookUpHash hash key
  match target.curr with
  | none => return (heap, target)
  | some curr =>
      let cell ← load (heap.entry curr)
      let heap ← heap.unlink hash target.prev cell.next
      return ({ heap with entryNum := heap.entryNum - 1 }, target)

def dictDestroyEntry (heap : DictHeap V) (iter : EntryIter) :
    Except HeapFault (DictHeap V) := do
  let curr ← deref iter.curr
  let cell ← load (heap.entry curr)
  let heap ← heap.freeKey cell.key
  let heap ← if cell.val = setValPtr then pure heap else heap.destroyVal cell.val
  heap.freeEntry curr

def dictRm (heap : DictHeap V) (key : Addr) : Except HeapFault (DictHeap V × Int) := do
  let (heap, target) ← heap.dictRmNf key
  match target.curr with
  | none => return (heap, eNotFound)
  | some _ =>
      let heap ← heap.dictDestroyEntry target
      return (heap, 0)

/-! ### The iteration -/

/-- A callback: the iterator, the memory and its own data give the memory and the data it leaves
and what it returns. -/
abbrev Callback (V State : Type) :=
  EntryIter → DictHeap V → State → Except HeapFault (DictHeap V × State × Int)

variable {State : Type}

/-- `iter.prev ? iter.prev->next : NULL`. -/
def nextPrev (heap : DictHeap V) : Option Addr → Except HeapFault (Option Addr)
  | none => .ok none
  | some prev => (load (heap.entry prev)).map DictCell.next

/-- The inner loop of `dict_iter`, through at most `fuel` entries. The next entry is read before the
call, the next previous one after it. -/
def iterChain (func : Callback V State) :
    Nat → EntryIter → DictHeap V → State → Except HeapFault (DictHeap V × State × Int)
  | _, ⟨none, _⟩, heap, state => .ok (heap, state, 0)
  | 0, ⟨some _, _⟩, _, _ => .error .endless
  | fuel + 1, ⟨some curr, prev⟩, heap, state => do
      let cell ← load (heap.entry curr)
      let (heap, state, ret) ← func ⟨some curr, prev⟩ heap state
      if ret ≠ 0 then
        return (heap, state, ret)
      else
        let prev ← heap.nextPrev prev
        iterChain func fuel ⟨cell.next, prev⟩ heap state

/-- The outer loop of `dict_iter`, with `left` slots left. -/
def iterSlots (func : Callback V State) :
    Nat → Nat → DictHeap V → State → Except HeapFault (DictHeap V × State × Int)
  | 0, _, heap, state => .ok (heap, state, 0)
  | left + 1, index, heap, state => do
      let (heap, state, ret) ← iterChain func chainBound ⟨heap.hashTbl index, none⟩ heap state
      if ret ≠ 0 then
        return (heap, state, ret)
      else
        iterSlots func left (index + 1) heap state

def dictIter (heap : DictHeap V) (func : Callback V State) (state : State) :
    Except HeapFault (DictHeap V × State × Int) :=
  iterSlots func (pwr2size heap.power).toNat 0 heap state

/-! ### Placements -/

/-- The pointers of an entry other than its link. -/
def fields (heap : DictHeap V) (addr : Addr) : Option (Addr × Addr) :=
  (heap.entry addr).map fun cell => (cell.key, cell.val)

/-- The link of an entry. -/
def next (heap : DictHeap V) (addr : Addr) : Option Addr :=
  (heap.entry addr).bind DictCell.next

end DictHeap

theorem DictHeap.entry_of_fields {heap : DictHeap V} {addr key val : Addr}
    (fields : heap.fields addr = some (key, val)) :
    heap.entry addr = some ⟨key, val, heap.next addr⟩ := by
  obtain ⟨cell, held, same⟩ := Option.map_eq_some_iff.mp fields
  cases same
  rw [DictHeap.next, held]
  rfl

/-- The entries of each slot with their addresses. -/
abbrev Placement (V : Type) := Nat → List (Addr × DictEntry V)

/-- The placement without the entry at an address. -/
def Placement.without (placed : Placement V) (addr : Addr) : Placement V :=
  fun index => (placed index).filter fun spot => spot.1 ≠ addr

theorem Placement.mem_without {placed : Placement V} {spot : Addr × DictEntry V} {addr : Addr}
    {index : Nat} :
    spot ∈ placed.without addr index ↔ spot ∈ placed index ∧ spot.1 ≠ addr := by
  rw [Placement.without, List.mem_filter, decide_eq_true_iff]

/-- The dictionary that is placed. -/
def DictHeap.dict (heap : DictHeap V) (placed : Placement V) : Dict V :=
  { hashTbl := fun index => (placed index).map Prod.snd
    power := heap.power
    entryNum := heap.entryNum
    bitMask := heap.bitMask }

@[simp]
theorem DictHeap.entries_dict (heap : DictHeap V) (placed : Placement V) :
    (heap.dict placed).entries =
      (Slots.contents placed (pwr2size heap.power).toNat).map Prod.snd :=
  Slots.contents_map placed Prod.snd _

variable [DictVal V]

/-- At an address lies an entry, with its key and its value. -/
def DictHeap.Holds (heap : DictHeap V) (spot : Addr × DictEntry V) : Prop :=
  ∃ key val, heap.fields spot.1 = some (key, val) ∧ heap.key key = some spot.2.key ∧
    if DictVal.isSetValPtr spot.2.val then val = setValPtr
    else val ≠ setValPtr ∧ heap.obj val = some spot.2.val

/-- The memory of a well-formed dictionary: each slot points to the chain of its entries, and every
object belongs to one entry. There are no entries, and so no pointers, beyond the table. -/
structure DictHeap.Lays (heap : DictHeap V) (placed : Placement V) : Prop where
  chains : ∀ index, Chain heap.next (heap.hashTbl index) ((placed index).map Prod.fst)
  holds : ∀ index, ∀ spot ∈ placed index, heap.Holds spot
  owned : ∀ index index', ∀ spot ∈ placed index, ∀ other ∈ placed index', ∀ key key' val,
    heap.fields spot.1 = some (key, val) → heap.fields other.1 = some (key', val) →
      val ≠ setValPtr → spot.1 = other.1
  wellFormed : (heap.dict placed).WellFormed

variable {heap heap' : DictHeap V} {placed : Placement V}

/-! ### Addresses -/

theorem DictHeap.Lays.mem_contents (laid : heap.Lays placed) {index : Nat}
    {spot : Addr × DictEntry V} (member : spot ∈ placed index) :
    spot ∈ Slots.contents placed (pwr2size heap.power).toNat := by
  have located := laid.wellFormed.located index spot.2 (List.mem_map_of_mem member)
  refine Slots.mem_contents.mpr ⟨index, ?_, member⟩
  rw [← located.1]
  exact laid.wellFormed.sized.slot_lt spot.2.key

/-- The key of an entry belongs to its address. -/
theorem DictHeap.Holds.key_eq {spot other : Addr × DictEntry V} (holds : heap.Holds spot)
    (holds' : heap.Holds other) {key val val' : Addr}
    (fields : heap.fields spot.1 = some (key, val))
    (fields' : heap.fields other.1 = some (key, val')) : spot.2.key = other.2.key := by
  obtain ⟨own, _, same, held, -⟩ := holds
  obtain ⟨own', _, same', held', -⟩ := holds'
  rw [fields] at same
  rw [fields'] at same'
  cases same
  cases same'
  rw [held] at held'
  exact Option.some.inj held'

/-- No two entries have equal keys. -/
theorem DictHeap.Lays.eq_of_content (laid : heap.Lays placed) {index index' : Nat}
    {spot other : Addr × DictEntry V} (member : spot ∈ placed index)
    (member' : other ∈ placed index') (same : spot.2.key.content = other.2.key.content) :
    spot = other := by
  have distinct := laid.wellFormed.distinct
  rw [DictHeap.entries_dict, List.map_map] at distinct
  exact List.inj_on_of_nodup_map distinct (laid.mem_contents member) (laid.mem_contents member')
    same

/-- No two entries have one key. -/
theorem DictHeap.Lays.eq_of_key (laid : heap.Lays placed) {index index' : Nat}
    {spot other : Addr × DictEntry V} (member : spot ∈ placed index)
    (member' : other ∈ placed index') {key val val' : Addr}
    (fields : heap.fields spot.1 = some (key, val))
    (fields' : heap.fields other.1 = some (key, val')) : spot = other := by
  have same : spot.2.key = other.2.key :=
    (laid.holds index spot member).key_eq (laid.holds index' other member') fields fields'
  exact laid.eq_of_content member member' (congrArg Bss.content same)

/-- No two entries have one address. -/
theorem DictHeap.Lays.eq_of_addr (laid : heap.Lays placed) {index index' : Nat}
    {spot other : Addr × DictEntry V} (member : spot ∈ placed index)
    (member' : other ∈ placed index') (same : spot.1 = other.1) : spot = other := by
  obtain ⟨key, val, fields, -⟩ := laid.holds index spot member
  exact laid.eq_of_key member member' fields (same ▸ fields)

/-- The addresses of the entries are distinct. -/
theorem DictHeap.Lays.nodup (laid : heap.Lays placed) :
    ((Slots.contents placed (pwr2size heap.power).toNat).map Prod.fst).Nodup := by
  have distinct := laid.wellFormed.distinct
  rw [DictHeap.entries_dict, List.map_map] at distinct
  refine List.Nodup.map_on (fun spot member other member' same => ?_) distinct.of_map
  obtain ⟨index, -, inSlot⟩ := Slots.mem_contents.mp member
  obtain ⟨index', -, inSlot'⟩ := Slots.mem_contents.mp member'
  exact laid.eq_of_addr inSlot inSlot' same

/-- So are those of one slot. -/
theorem DictHeap.Lays.nodup_slot (laid : heap.Lays placed) (index : Nat) :
    ((placed index).map Prod.fst).Nodup := by
  by_cases inside : index < (pwr2size heap.power).toNat
  · exact ((Slots.sublist_contents placed inside).map Prod.fst).nodup laid.nodup
  · have empty : placed index = [] := by
      refine List.eq_nil_iff_forall_not_mem.mpr fun spot member => inside ?_
      have located := laid.wellFormed.located index spot.2 (List.mem_map_of_mem member)
      rw [← located.1]
      exact laid.wellFormed.sized.slot_lt spot.2.key
    rw [empty]
    exact List.nodup_nil

theorem DictHeap.Lays.length_lt (laid : heap.Lays placed) (index : Nat) :
    (placed index).length < chainBound := by
  have most := (laid.nodup_slot index).length_le_card
  rw [Fintype.card_fin, List.length_map] at most
  exact Nat.lt_succ_of_le most

/-- The link of an entry points to the entry behind it. -/
theorem DictHeap.Lays.next_eq (laid : heap.Lays placed) {index : Nat}
    {spot : Addr × DictEntry V} {front back : List (Addr × DictEntry V)}
    (cut : placed index = front ++ spot :: back) :
    heap.next spot.1 = back.head?.map Prod.fst := by
  have chain := laid.chains index
  rw [cut, List.map_append, List.map_cons] at chain
  rw [chain.next_eq, List.head?_map]

/-- An entry is in one slot. -/
theorem DictHeap.Lays.slot_eq (laid : heap.Lays placed) {index index' : Nat}
    {spot other : Addr × DictEntry V} (member : spot ∈ placed index)
    (member' : other ∈ placed index') (same : spot.1 = other.1) : index = index' := by
  obtain rfl := laid.eq_of_addr member member' same
  have located := laid.wellFormed.located index spot.2 (List.mem_map_of_mem member)
  have located' := laid.wellFormed.located index' spot.2 (List.mem_map_of_mem member')
  rw [← located.1, located'.1]

/-- Taking an entry out of its chain takes it out of the placement. -/
theorem DictHeap.Lays.set_eq_without (laid : heap.Lays placed) {hash : Nat}
    {spot : Addr × DictEntry V} {front back : List (Addr × DictEntry V)}
    (chain : placed hash = front ++ spot :: back) :
    Slots.set placed hash (front ++ back) = placed.without spot.1 := by
  have member : spot ∈ placed hash := chain ▸ List.mem_append_right _ List.mem_cons_self
  funext index
  by_cases same : index = hash
  · subst same
    have nodup := laid.nodup_slot index
    rw [chain, List.map_append, List.map_cons] at nodup
    have apart := List.nodup_cons.mp (List.nodup_middle.mp nodup)
    rw [← List.map_append, List.mem_map, not_exists] at apart
    have stays : ∀ other ∈ front ++ back, (decide (other.1 ≠ spot.1)) = true := by
      intro other inside
      rw [decide_eq_true_iff]
      exact fun equal => apart.1 other ⟨inside, equal⟩
    rw [Slots.set_self, Placement.without, chain, List.filter_append,
      List.filter_cons_of_neg (by simp only [ne_eq, not_true_eq_false, decide_false,
        Bool.false_eq_true, not_false_eq_true]), ← List.filter_append,
      List.filter_eq_self.mpr stays]
  · rw [Slots.set_of_ne _ _ same, Placement.without]
    refine (List.filter_eq_self.mpr fun other inside => ?_).symm
    rw [decide_eq_true_iff]
    exact fun equal => same (laid.slot_eq inside member equal)

end PseudoRedis
