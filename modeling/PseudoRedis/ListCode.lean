/-
This file embeds the code over lists with each of its accesses to memory: `list.c`, and the
loops in which the handlers of `commands.c` walk over a list, edit it and take it apart. A
node that is read, assigned to or released has to be allocated, or the run ends in a fault,
and so does one that dereferences `NULL`.

`ListRing` says what the assignments come to where nothing goes wrong; here it is the order
of the accesses that counts, above all what is read of an entry before it is released.
-/

import PseudoRedis.Lib.Faulting
import PseudoRedis.DictHeap
import PseudoRedis.ListIndex
import PseudoRedis.ListInsert
import PseudoRedis.ListRemove
import PseudoRedis.PopPush

namespace PseudoRedis

open Faulting

/-- Code over the lists in memory. -/
abbrev ListCode (Value : Type) := Code HeapFault ListHeap Value

namespace ListCode

/-! ### Accesses -/

def read {Value : Type} (node : Addr) (field : ListHeap → Value) : ListCode Value := fun heap =>
  if heap.live node then .ok (field heap, heap) else .error .notAllocated

def assign (node : Addr) (edit : ListHeap → ListHeap) : ListCode Unit := fun heap =>
  if heap.live node then .ok ((), edit heap) else .error .notAllocated

def next (node : Addr) : ListCode Addr := read node fun heap => heap.next node

def prev (node : Addr) : ListCode Addr := read node fun heap => heap.prev node

def num (list : Addr) : ListCode Nat := read list fun heap => heap.num list

def setNext (node target : Addr) : ListCode Unit := assign node fun heap => heap.setNext node target

def setPrev (node target : Addr) : ListCode Unit := assign node fun heap => heap.setPrev node target

def count (list : Addr) (change : Int) : ListCode Unit :=
  assign list fun heap => heap.count list change

/-- The string an entry points to; that of a head is `NULL`. -/
def str (entry : Addr) : ListCode Bss := do
  match ← read entry fun heap => heap.val entry with
  | some val => return val
  | none => throw .nullPointer

def setStr (entry : Addr) (val : Bss) : ListCode Unit :=
  assign entry fun heap => heap.setVal entry val

/-- What `malloc` returns is given. -/
def create (list : Addr) : ListCode Unit := fun heap => .ok ((), listCreate heap list)

def createEntry (entry : Addr) (val : Bss) : ListCode Unit := fun heap =>
  .ok ((), listCreateEntry heap entry val)

/-- The string is released with the entry. -/
def destroyEntry (entry : Addr) : ListCode Unit := do
  let _ ← read entry fun heap => heap.val entry
  assign entry fun heap => listDestroyEntry heap entry

/-- `free(list)`. -/
def free (list : Addr) : ListCode Unit := assign list fun heap => listFree heap list

/-- `NULL` is dereferenced. -/
def deref {Value : Type} : Option Value → ListCode Value
  | some value => return value
  | none => throw .nullPointer

/-! ### The operations -/

def linkAfter (place target : Addr) : ListCode Unit := do
  setPrev (← next place) target
  setNext target (← next place)
  setNext place target
  setPrev target place

def linkBefore (place target : Addr) : ListCode Unit := do
  setNext (← prev place) target
  setPrev target (← prev place)
  setPrev place target
  setNext target place

def insertFront (list entry : Addr) : ListCode Unit := do
  linkAfter list entry
  count list 1

def insertBack (list entry : Addr) : ListCode Unit := do
  linkBefore list entry
  count list 1

def insertAfter (list entry target : Addr) : ListCode Unit := do
  linkAfter entry target
  count list 1

def insertBefore (list entry target : Addr) : ListCode Unit := do
  linkBefore entry target
  count list 1

def unlink (entry : Addr) : ListCode Unit := do
  setNext (← prev entry) (← next entry)
  setPrev (← next entry) (← prev entry)

def rmNf (list entry : Addr) : ListCode Addr := do
  unlink entry
  count list (-1)
  return entry

def rm (list entry : Addr) : ListCode Unit := do
  unlink entry
  destroyEntry entry
  count list (-1)

/-- The pointer a walk from an end follows. -/
def walk : End → Addr → ListCode Addr
  | .left => next
  | .right => prev

/-- `list_pop_front` and `list_pop_back`; both look at `next` to see whether the list is empty. -/
def pop (side : End) (list : Addr) : ListCode (Option Addr) := do
  if (← next list) = list then
    return none
  else
    return some (← rmNf list (← walk side list))

/-- `list_insert_front` and `list_insert_back`. -/
def insert : End → Addr → Addr → ListCode Unit
  | .left => insertFront
  | .right => insertBack

/-- `list_move_front` and `list_move_back`. -/
def move (side : End) (entry src dst : Addr) : ListCode Unit := do
  let entry ← rmNf src entry
  insert side dst entry

/-- `E_EMPTY`. -/
def eEmpty : Int := -4

/-- `list_move_bf`, `_fb`, `_ff` and `_bb`: the entry at an end of one list goes to an end of
another one. -/
def moveEnd (source target : End) (src dst : Addr) : ListCode Int := do
  if (← next src) = src then
    return eEmpty
  else
    move target (← walk source src) src dst
    return 0

/-- The loop of `list_iter`, through at most `fuel` entries. -/
def iterFrom (func : Addr → ListCode Unit) (list : Addr) : Nat → Addr → ListCode Unit
  | fuel, entry => do
      if entry = list then
        return ()
      else
        match fuel with
        | 0 => throw .endless
        | fuel + 1 =>
            let after ← next entry
            func entry
            iterFrom func list fuel after

def iter (list : Addr) (func : Addr → ListCode Unit) : ListCode Unit := do
  iterFrom func list chainBound (← next list)

def destroy (list : Addr) : ListCode Unit := do
  iter list destroyEntry
  free list

/-! ### The loops of the handlers -/

/-- A list that is empty is destroyed with its key. -/
def leave (list : Addr) : ListCode Unit := do
  if (← num list) = 0 then
    destroy list

/-- One turn of the loop of `LPUSH` and `RPUSH`. -/
def push (side : End) (list entry : Addr) (val : Bss) : ListCode Unit := do
  createEntry entry val
  insert side list entry

/-- `LPOP` and `RPOP`. -/
def popString (side : End) (list : Addr) : ListCode Bss := do
  let entry ← pop side list
  leave list
  let entry ← deref entry
  let val ← str entry
  destroyEntry entry
  return val

/-- `BLPOP` and `BRPOP`, where the entry that held the string is not released. Only the list of the
first key is its `own`, which is destroyed with the key when it is empty. -/
def popKept (side : End) (list : Addr) (own : Bool) : ListCode Bss := do
  let entry ← pop side list
  if own then
    leave list
  else
    let _ ← num list
  let entry ← deref entry
  str entry

/-- `RPOPLPUSH`. Where the destination has no list, `room` is where it gets one. -/
def popPush (src dst : Addr) (room : Bool) : ListCode Bss := do
  let entry ← pop .right src
  leave src
  if room then
    create dst
  let entry ← deref entry
  insertFront dst entry
  str entry

/-- A loop of `_lrem`, through at most `fuel` entries. -/
def lremFrom (side : End) (list : Addr) (bss : Bss) (target : Option Int) :
    Nat → Int → Addr → ListCode Int
  | fuel, removed, entry => do
      if entry = list then
        return removed
      else
        match fuel with
        | 0 => throw .endless
        | fuel + 1 =>
            let after ← walk side entry
            let val ← str entry
            if bssCmp val bss = 0 ∧ within target removed then
              rm list entry
              if some (toInt32 (removed + 1)) = target then
                return toInt32 (removed + 1)
              else
                lremFrom side list bss target fuel (toInt32 (removed + 1)) after
            else
              lremFrom side list bss target fuel removed after

/-- `_lrem`. -/
def lrem (list : Addr) (target : Int) (bss : Bss) : ListCode Int := do
  if target > 0 then
    lremFrom .left list bss (some target) chainBound 0 (← next list)
  else if target = 0 then
    lremFrom .left list bss none chainBound 0 (← next list)
  else
    lremFrom .right list bss (some (toInt64 (-target))) chainBound 0 (← prev list)

/-- `LREM`. -/
def remove (list : Addr) (target : Int) (bss : Bss) : ListCode Int := do
  let removed ← lrem list target bss
  leave list
  return removed

/-- The loop `for(int i = 0; i <= index; ++i) entry = entry->next`. -/
def stepTo (index : Int) : Nat → Int → Addr → ListCode Addr
  | fuel, i, entry => do
      if i ≤ index then
        match fuel with
        | 0 => throw .endless
        | fuel + 1 => stepTo index fuel (toInt32 (i + 1)) (← next entry)
      else
        return entry

/-- `LINDEX` and the search of `LSET`. -/
def find (list : Addr) (index : Int) : ListCode (Option Addr) := do
  let num ← num list
  if num ≤ toSize (fromEnd index num) ∨ fromEnd index num < 0 then
    return none
  else
    return some (← stepTo (fromEnd index num) chainBound 0 list)

def lindex (list : Addr) (index : Int) : ListCode (Option Bss) := do
  match ← find list index with
  | none => return none
  | some entry => return some (← str entry)

/-- The old string of the entry is released; the new one is put in its place. -/
def lset (list : Addr) (index : Int) (val : Bss) : ListCode Bool := do
  match ← find list index with
  | none => return false
  | some entry =>
      let _ ← str entry
      setStr entry val
      return true

/-- The two offsets of a range, and whether it is empty. -/
def offsets (list : Addr) (offset1 offset2 : Int) : ListCode (Option (Int × Int)) := do
  let num ← num list
  if emptyRange (rangeStart offset1 num) (fromEnd offset2 num) num then
    return none
  else
    return some (rangeStart offset1 num, fromEnd offset2 num)

/-- The loop `for(size_t i = 0; i <= offset; ++i) entry = entry->next`. -/
def stepOn : Nat → Addr → ListCode Addr
  | 0, entry => next entry
  | offset + 1, entry => do stepOn offset (← next entry)

/-- The loop of `LRANGE`, with the strings it adds to the reply. -/
def collect (list : Addr) (stop : Nat) : Nat → Nat → Addr → ListCode (List Bss)
  | fuel, i, entry => do
      if i ≤ stop ∧ i < (← num list) then
        match fuel with
        | 0 => throw .endless
        | fuel + 1 =>
            let val ← str entry
            let rest ← collect list stop fuel (i + 1) (← next entry)
            return val :: rest
      else
        return []

def lrange (list : Addr) (offset1 offset2 : Int) : ListCode (List Bss) := do
  match ← offsets list offset1 offset2 with
  | none => return []
  | some (first, last) =>
      let entry ← stepOn (toSize first) list
      collect list (toSize last) chainBound (toSize first) entry

/-- The loop of `LTRIM`. -/
def trimFrom (list newList : Addr) (last : Int) : Nat → Int → Addr → ListCode Unit
  | fuel, first, entry => do
      if entry = list then
        return ()
      else
        match fuel with
        | 0 => throw .endless
        | fuel + 1 =>
            let after ← next entry
            move .right entry list newList
            if first = last then
              return ()
            else
              trimFrom list newList last fuel (first + 1) after

/-- `LTRIM`, with the list the key has then. A list that keeps nothing is destroyed with its key. -/
def ltrim (list : Addr) (offset1 offset2 : Int) (room : Addr) : ListCode (Option Addr) := do
  match ← offsets list offset1 offset2 with
  | none =>
      destroy list
      return none
  | some (first, last) =>
      let entry ← stepOn (toSize first) list
      create room
      trimFrom list room last chainBound first entry
      destroy list
      return some room

/-- The search of `LINSERT`. -/
def findEqual (list : Addr) (pivot : Bss) : Nat → Addr → ListCode (Option Addr)
  | fuel, entry => do
      if entry = list then
        return none
      else
        match fuel with
        | 0 => throw .endless
        | fuel + 1 =>
            let val ← str entry
            if bssCmp val pivot = 0 then
              return some entry
            else
              findEqual list pivot fuel (← next entry)

def insertBeside (after : Bool) (list entry target : Addr) : ListCode Unit :=
  if after then insertAfter list entry target else insertBefore list entry target

def linsert (list : Addr) (pivot val : Bss) (after : Bool) (room : Addr) : ListCode Int := do
  match ← findEqual list pivot chainBound (← next list) with
  | none => return -1
  | some entry =>
      createEntry room val
      insertBeside after list entry room
      return (← num list)

end ListCode

end PseudoRedis
