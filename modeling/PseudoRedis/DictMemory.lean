/-
This file embeds the rest of `dict.c` over its pointers: the look-up, the two additions, the
renaming, the scan, and the destruction of a whole dictionary. Memory is what `malloc` gave
out and `free` has not taken back: entries, keys and values. A dictionary takes what it is
handed into its chains and releases what it drops; the rest of memory is its caller's.

Nothing but the links tells whose something is: an entry belongs to the dictionary if the
table leads to it, a key and a value if such an entry points to them.
-/

import PseudoRedis.DictIter
import PseudoRedis.Expand

namespace PseudoRedis

open Chains

variable {V : Type}

/-! ### Creation and destruction -/

/-- The entries, keys and values that are allocated. -/
structure DictMemory (V : Type) where
  entry : Addr → Option DictCell
  key : Addr → Option Bss
  obj : Addr → Option V

namespace DictHeap

/-- The memory around a `dict_t` and its table. -/
def memory (heap : DictHeap V) : DictMemory V := ⟨heap.entry, heap.key, heap.obj⟩

def dictCreate (memory : DictMemory V) (power : Nat) : DictHeap V :=
  let size := pwr2size power
  { entry := memory.entry
    key := memory.key
    obj := memory.obj
    hashTbl := fun _ => none
    power
    entryNum := 0
    bitMask := if power = 32 then 0xffffffff else ~~~size &&& (size - 1) }

def destroyEntryCallback : Callback V Unit := fun iter heap state => do
  let heap ← heap.dictDestroyEntry iter
  return (heap, state, 0)

/-- What is left when the entries, the table and the `dict_t` are released. -/
def dictDestroy (heap : DictHeap V) : Except HeapFault (DictMemory V) := do
  let (heap, _, _) ← heap.dictIter destroyEntryCallback ()
  return heap.memory

/-! ### Looking up -/

/-- `_dict_look_up`. -/
def dictLookUpIter (heap : DictHeap V) (key : Addr) : Except HeapFault EntryIter := do
  let name ← load (heap.key key)
  heap.dictLookUpHash (dictGetHash name &&& heap.bitMask).toNat key

/-- The value of a key, `NULL` without one. -/
def dictLookUp (heap : DictHeap V) (key : Addr) : Except HeapFault (Option Addr) := do
  let iter ← heap.dictLookUpIter key
  match iter.curr with
  | none => return none
  | some curr =>
      let cell ← load (heap.entry curr)
      return some cell.val

/-! ### Adding -/

/-- The assignment `entry->key = key`. -/
def setKey (heap : DictHeap V) (entry key : Addr) : Except HeapFault (DictHeap V) := do
  let cell ← load (heap.entry entry)
  return { heap with entry := Function.update heap.entry entry (some { cell with key }) }

/-- The assignment `entry->val = val`. -/
def setVal (heap : DictHeap V) (entry val : Addr) : Except HeapFault (DictHeap V) := do
  let cell ← load (heap.entry entry)
  return { heap with entry := Function.update heap.entry entry (some { cell with val }) }

/-- `dict_entry_create`, where `room` is what `malloc` returns. -/
def dictEntryCreate (heap : DictHeap V) (key val : Addr) (room : Option Addr) :
    DictHeap V × Option Addr :=
  match room with
  | none => (heap, none)
  | some entry =>
      ({ heap with entry := Function.update heap.entry entry (some ⟨key, val, none⟩) }, some entry)

/-- The assignment that hangs an entry behind another one, or into an empty slot. -/
def link (heap : DictHeap V) (hash : Nat) (prev : Option Addr) (entry : Addr) :
    Except HeapFault (DictHeap V) :=
  match prev with
  | none => .ok { heap with hashTbl := Function.update heap.hashTbl hash (some entry) }
  | some prev => heap.setNext prev (some entry)

/-- The end of both additions, when no entry has the key. -/
def addEntry (heap : DictHeap V) (hash : Nat) (prev : Option Addr) (key val : Addr)
    (room : Option Addr) : Except HeapFault (DictHeap V × Int) :=
  match heap.dictEntryCreate key val room with
  | (heap, none) => .ok (heap, eMemOut)
  | (heap, some entry) => do
      let heap ← heap.link hash prev entry
      return ({ heap with entryNum := heap.entryNum + 1 }, 0)

def dictAddShallow (heap : DictHeap V) (key val : Addr) (room : Option Addr) :
    Except HeapFault (DictHeap V × Int) := do
  let name ← load (heap.key key)
  let hash := (dictGetHash name &&& heap.bitMask).toNat
  let iter ← heap.dictLookUpHash hash key
  match iter.curr with
  | some _ => return (heap, 0)
  | none => heap.addEntry hash iter.prev key val room

def dictAdd (heap : DictHeap V) (key val : Addr) (room : Option Addr) :
    Except HeapFault (DictHeap V × Int) := do
  let name ← load (heap.key key)
  let hash := (dictGetHash name &&& heap.bitMask).toNat
  let iter ← heap.dictLookUpHash hash key
  match iter.curr with
  | some curr =>
      let cell ← load (heap.entry curr)
      let heap ← heap.freeKey cell.key
      let heap ← heap.setKey curr key
      if cell.val = setValPtr then
        return (heap, 0)
      else
        let heap ← heap.destroyVal cell.val
        let heap ← heap.setVal curr val
        return (heap, 0)
  | none => heap.addEntry hash iter.prev key val room

/-! ### Renaming -/

/-- The new key has an entry already: it gets the new key and the value of the old entry, which is
released. `SET_VAL_PTR` is not looked for. -/
def renameOnto (heap : DictHeap V) (curr there newKey : Addr) :
    Except HeapFault (DictHeap V × Int) := do
  let cell ← load (heap.entry there)
  let heap ← heap.freeKey cell.key
  let heap ← heap.setKey there newKey
  let heap ← heap.destroyVal cell.val
  let old ← load (heap.entry curr)
  let heap ← heap.setVal there old.val
  let heap ← heap.freeKey old.key
  let heap ← heap.freeEntry curr
  return (heap, 0)

/-- The new key has no entry: the old entry is linked in again under it. -/
def renameInto (heap : DictHeap V) (hash : Nat) (prev : Option Addr) (curr newKey : Addr) :
    Except HeapFault (DictHeap V × Int) := do
  let old ← load (heap.entry curr)
  let heap ← heap.freeKey old.key
  let heap ← heap.setKey curr newKey
  match prev with
  | none =>
      let heap ← heap.setNext curr none
      let heap ← heap.link hash none curr
      return (heap, 0)
  | some prev =>
      let before ← load (heap.entry prev)
      let heap ← heap.setNext curr before.next
      let heap ← heap.link hash (some prev) curr
      return (heap, 0)

def dictRename (heap : DictHeap V) (key newKey : Addr) : Except HeapFault (DictHeap V × Int) := do
  let (heap, iter) ← heap.dictRmNf key
  match iter.curr with
  | none => return (heap, eNotFound)
  | some curr =>
      let name ← load (heap.key newKey)
      let hash := (dictGetHash name &&& heap.bitMask).toNat
      let newIter ← heap.dictLookUpHash hash newKey
      match newIter.curr with
      | some there => heap.renameOnto curr there newKey
      | none => heap.renameInto hash newIter.prev curr newKey

/-! ### Whose something is -/

/-- The table leads to the entry. -/
inductive Linked (heap : DictHeap V) : Addr → Prop
  | first {index : Nat} {addr : Addr} (points : heap.hashTbl index = some addr) : Linked heap addr
  | behind {addr other : Addr} (linked : Linked heap addr) (points : heap.next addr = some other) :
      Linked heap other

/-- The dictionary's key: it will be released with its entry. -/
def OwnsKey (heap : DictHeap V) (key : Addr) : Prop :=
  ∃ addr val, heap.Linked addr ∧ heap.fields addr = some (key, val)

/-- The dictionary's value. -/
def OwnsVal (heap : DictHeap V) (val : Addr) : Prop :=
  val ≠ setValPtr ∧ ∃ addr key, heap.Linked addr ∧ heap.fields addr = some (key, val)

/-- What a value pointer stands for. -/
def ValAt [DictVal V] (heap : DictHeap V) (val : Addr) (obj : V) : Prop :=
  if DictVal.isSetValPtr obj then val = setValPtr else val ≠ setValPtr ∧ heap.obj val = some obj

/-- What was the dictionary's is still its own or released, and nothing else is touched. -/
structure Accounts (heap heap' : DictHeap V) : Prop where
  entries : ∀ addr, heap.Linked addr → heap'.Linked addr ∨ heap'.entry addr = none
  keys : ∀ key, heap.OwnsKey key → heap'.OwnsKey key ∨ heap'.key key = none
  vals : ∀ val, heap.OwnsVal val → heap'.OwnsVal val ∨ heap'.obj val = none
  otherEntries : ∀ addr, ¬ heap.Linked addr → heap.entry addr ≠ none →
    heap'.entry addr = heap.entry addr
  otherKeys : ∀ key, ¬ heap.OwnsKey key → heap'.key key = heap.key key
  otherVals : ∀ val, ¬ heap.OwnsVal val → heap'.obj val = heap.obj val

theorem Accounts.refl (heap : DictHeap V) : heap.Accounts heap :=
  ⟨fun _ => Or.inl, fun _ => Or.inl, fun _ => Or.inl, fun _ _ _ => rfl, fun _ _ => rfl,
    fun _ _ => rfl⟩

end DictHeap

end PseudoRedis
