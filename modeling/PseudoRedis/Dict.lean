/-
This file embeds `dict.c`, the chained hash table every data type of the server rests
on. A table is a family of chains; an iterator is a chain cut at the entry it stands
on, so that `curr` and `prev` are the first entry after the cut and the last one before
it. The key hash is the MurmurHash2 of the source, computed on 32-bit words.

`DICT_RESIZE` is not defined, so the power and the mask of a dictionary never change.
The value type is a parameter: the key space maps keys to objects, a hash maps fields
to strings, and a set maps its members to `SET_VAL_PTR`, which `DictVal` tells apart.
-/

import PseudoRedis.Bss
import PseudoRedis.Lib.Slots

namespace PseudoRedis

/-! ### The structures -/

/-- A value type of dictionaries: which of its values is `SET_VAL_PTR`. -/
class DictVal (V : Type) where
  isSetValPtr : V → Bool

/-- The dictionary of a set: every value is `SET_VAL_PTR`. -/
instance : DictVal Unit := ⟨fun _ => true⟩

/-- The dictionary of a hash: the values are strings. -/
instance : DictVal Bss := ⟨fun _ => false⟩

structure DictEntry (V : Type) where
  key : Bss
  val : V

/-- A dictionary. `entryNum` stands for the `size_t` of the same residue modulo `2 ^ 64`. -/
structure Dict (V : Type) where
  hashTbl : Nat → List (DictEntry V)
  power : Nat
  entryNum : Int
  bitMask : UInt32

/-- A chain cut at the entry the iterator stands on. -/
structure DictIter (V : Type) where
  before : List (DictEntry V)
  rest : List (DictEntry V)

def DictIter.curr {V : Type} (iter : DictIter V) : Option (DictEntry V) := iter.rest.head?

variable {V : Type}

/-! ### The hash -/

def mixConstant : UInt32 := 0x5bd1e995

/-- One four-byte step of the hash. -/
def mixWord (hash word : UInt32) : UInt32 :=
  let word := word * mixConstant
  let word := (word ^^^ (word >>> 24)) * mixConstant
  (hash * mixConstant) ^^^ word

def mixBytes (hash : UInt32) : Bytes → UInt32
  | b0 :: b1 :: b2 :: b3 :: rest =>
      mixBytes (mixWord hash (b0.toUInt32 ||| (b1.toUInt32 <<< 8) ||| (b2.toUInt32 <<< 16) |||
        (b3.toUInt32 <<< 24))) rest
  | [b0, b1, b2] =>
      (hash ^^^ (b2.toUInt32 <<< 16) ^^^ (b1.toUInt32 <<< 8) ^^^ b0.toUInt32) * mixConstant
  | [b0, b1] => (hash ^^^ (b1.toUInt32 <<< 8) ^^^ b0.toUInt32) * mixConstant
  | [b0] => (hash ^^^ b0.toUInt32) * mixConstant
  | [] => hash

def dictGetHash (bss : Bss) : UInt32 :=
  let hash := mixBytes (5381 ^^^ UInt32.ofNat bss.len) bss.content
  let hash := (hash ^^^ (hash >>> 13)) * mixConstant
  hash ^^^ (hash >>> 15)

theorem dictGetHash_congr {first second : Bss} (firstShort : first.Short)
    (secondShort : second.Short) (same : first.content = second.content) :
    dictGetHash first = dictGetHash second := by
  have sameLen : first.len = second.len := by
    rw [← firstShort.content_length, ← secondShort.content_length, same]
  rw [dictGetHash, dictGetHash, same, sameLen]

/-! ### Creation and iteration -/

def pwr2size (power : Nat) : UInt32 := 1 <<< UInt32.ofNat power

def dictCreate (power : Nat) : Dict V :=
  let size := pwr2size power
  { hashTbl := fun _ => []
    power
    entryNum := 0
    bitMask := if power = 32 then 0xffffffff else ~~~size &&& (size - 1) }

/-- The entries in the order `dict_iter` meets them. -/
def Dict.entries (dict : Dict V) : List (DictEntry V) :=
  Slots.contents dict.hashTbl (pwr2size dict.power).toNat

/-- Calling a callback on entries until it returns something other than zero. -/
def iterList {State : Type} (func : DictEntry V → State → State × Int) :
    List (DictEntry V) → State → State × Int
  | [], state => (state, 0)
  | entry :: rest, state =>
      let (state, ret) := func entry state
      if ret ≠ 0 then (state, ret) else iterList func rest state

def dictIter {State : Type} (dict : Dict V) (func : DictEntry V → State → State × Int)
    (state : State) : State × Int :=
  iterList func dict.entries state

/-! ### Looking up -/

/-- The loop of the look-up. `before` is the part of the chain already passed. -/
def walk (key : Bss) (before : List (DictEntry V)) : List (DictEntry V) → DictIter V
  | [] => ⟨before, []⟩
  | entry :: rest =>
      if bssCmp key entry.key = 0 then ⟨before, entry :: rest⟩
      else walk key (before ++ [entry]) rest

def dictLookUpHash (dict : Dict V) (hash : Nat) (key : Bss) : DictIter V :=
  walk key [] (dict.hashTbl hash)

/-- The slot of a key. -/
def Dict.slot (dict : Dict V) (key : Bss) : Nat := (dictGetHash key &&& dict.bitMask).toNat

/-- `_dict_look_up`: the iterator at a key. -/
def dictLookUpIter (dict : Dict V) (key : Bss) : DictIter V :=
  dictLookUpHash dict (dict.slot key) key

def dictLookUp (dict : Dict V) (key : Bss) : Option V :=
  (dictLookUpIter dict key).curr.map DictEntry.val

/-- The table with the chain of one slot relinked. -/
def Dict.relink (dict : Dict V) (hash : Nat) (chain : List (DictEntry V)) : Dict V :=
  { dict with hashTbl := Slots.set dict.hashTbl hash chain }

/-- The assignment `iter.curr->val = val` through the iterator at a key. -/
def dictSetVal (dict : Dict V) (key : Bss) (val : V) : Dict V :=
  let iter := dictLookUpIter dict key
  match iter.rest with
  | [] => dict
  | curr :: next => dict.relink (dict.slot key) (iter.before ++ { curr with val } :: next)

/-! ### Removing and adding -/

/-- The dictionary without the entry, and the entry. -/
def dictRmNf (dict : Dict V) (key : Bss) : Dict V × Option (DictEntry V) :=
  let hash := dict.slot key
  let target := dictLookUpHash dict hash key
  match target.rest with
  | [] => (dict, none)
  | curr :: next =>
      ({ dict.relink hash (target.before ++ next) with entryNum := dict.entryNum - 1 }, some curr)

def dictRm (dict : Dict V) (key : Bss) : Dict V × Int :=
  match dictRmNf dict key with
  | (dict, none) => (dict, eNotFound)
  | (dict, some _) => (dict, 0)

/-- An existing key keeps its old value. -/
def dictAddShallow (dict : Dict V) (key : Bss) (obj : V) : Dict V :=
  let hash := dict.slot key
  let iter := dictLookUpHash dict hash key
  match iter.rest with
  | _ :: _ => dict
  | [] =>
      { dict.relink hash (iter.before ++ [⟨key, obj⟩]) with entryNum := dict.entryNum + 1 }

/-- An existing key is replaced, and its value as well unless that is `SET_VAL_PTR`. -/
def dictAdd [DictVal V] (dict : Dict V) (key : Bss) (obj : V) : Dict V :=
  let hash := dict.slot key
  let iter := dictLookUpHash dict hash key
  match iter.rest with
  | curr :: next =>
      let val := if DictVal.isSetValPtr curr.val then curr.val else obj
      dict.relink hash (iter.before ++ ⟨key, val⟩ :: next)
  | [] =>
      { dict.relink hash (iter.before ++ [⟨key, obj⟩]) with entryNum := dict.entryNum + 1 }

/-- The entry is unlinked first; a key that is already there takes its value over, otherwise the
entry is linked in again under the new key. Nothing restores the count in the second case. -/
def dictRename (dict : Dict V) (key newKey : Bss) : Dict V × Int :=
  match dictRmNf dict key with
  | (dict, none) => (dict, eNotFound)
  | (dict, some entry) =>
      let hash := dict.slot newKey
      let newIter := dictLookUpHash dict hash newKey
      match newIter.rest with
      | _ :: next =>
          (dict.relink hash (newIter.before ++ ⟨newKey, entry.val⟩ :: next), 0)
      | [] =>
          (dict.relink hash (newIter.before ++ [⟨newKey, entry.val⟩]), 0)

/-! ### Random elements and scans -/

/-- Drawing slots until one holds an entry. -/
def drawSlot (dict : Dict V) : List Nat → Option (List (DictEntry V) × List Nat)
  | [] => none
  | draw :: rest =>
      match dict.hashTbl (UInt32.ofNat draw &&& dict.bitMask).toNat with
      | [] => drawSlot dict rest
      | chain => some (chain, rest)

def dictRandomElem (dict : Dict V) (random : List Nat) : Except Fault (DictEntry V) :=
  match drawSlot dict random with
  | none => .error .unfinished
  | some (_, []) => .error .unfinished
  | some (chain, draw :: _) =>
      match chain[draw % chain.length]? with
      | none => .error .nullPointer
      | some entry => .ok entry

/-- One slot, and the cursor of the next. The callback's answer is not looked at. -/
def dictScan {State : Type} (dict : Dict V) (cursor : UInt32)
    (func : DictEntry V → State → State × Int) (state : State) : State × UInt32 :=
  ((dict.hashTbl (cursor &&& dict.bitMask).toNat).foldl (fun state entry => (func entry state).1)
      state,
    (cursor + 1) &&& dict.bitMask)

end PseudoRedis
