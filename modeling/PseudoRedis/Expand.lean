/-
This file embeds what `dict.c` adds in a `DICT_RESIZE` build: `dict_expand`, and a
`dict_add` that calls it first when the table is getting full. Each chain of the old table
is put, as a whole, into the slot its head has in the new one. No entry is lost that way,
but an entry behind the head is found again only if it belongs into the same slot.
-/

import PseudoRedis.Rename

namespace PseudoRedis

variable {V : Type}

/-! ### The functions -/

def maxPower : Nat := 32

def eMemOut : Int := -3

/-- `sizeof(dict_entry_t *)`. -/
def sizeofPointer : Nat := 8

def tableSize (power : Nat) : Nat :=
  if power = 32 then 0xffffffff else (pwr2size power).toNat

def tableMask (power : Nat) : UInt32 :=
  if power = 32 then 0xffffffff else ~~~pwr2size power &&& (pwr2size power - 1)

/-- The slot of a key under a mask. -/
def slotUnder (mask : UInt32) (key : Bss) : Nat := (dictGetHash key &&& mask).toNat

/-- The table after the first slots of the old one: a chain goes where its head belongs. -/
def rehash (dict : Dict V) (mask : UInt32) : Nat → Nat → List (DictEntry V)
  | 0 => fun _ => []
  | index + 1 =>
      match dict.hashTbl index with
      | [] => rehash dict mask index
      | head :: rest =>
          Slots.set (rehash dict mask index) (slotUnder mask head.key) (head :: rest)

/-- The dictionary with the new table. -/
def Dict.rehashed (dict : Dict V) (power : Nat) : Dict V :=
  { dict with
    hashTbl := rehash dict (tableMask power) (pwr2size dict.power).toNat
    power
    bitMask := tableMask power }

def dictExpand (env : Env) (dict : Dict V) (power : Nat) : Dict V × Int :=
  if env.malloc (sizeofPointer * tableSize power) then (dict.rehashed power, 0)
  else (dict, eMemOut)

/-- `dict_add` of a `DICT_RESIZE` build. What `dict_expand` returns is not looked at. -/
def dictAddResize [DictVal V] (env : Env) (dict : Dict V) (key : Bss) (obj : V) : Dict V :=
  if (pwr2size dict.power / 4).toNat < toSize dict.entryNum ∧ dict.power < maxPower then
    dictAdd (dictExpand env dict (dict.power + 1)).1 key obj
  else
    dictAdd dict key obj

/-! ### Slots under two masks -/

variable {dict : Dict V} {key other : Bss}

theorem slotUnder_of_mask {mask : UInt32} {power : Nat} (size : mask.toNat + 1 = 2 ^ power)
    (key : Bss) : slotUnder mask key = (dictGetHash key).toNat % 2 ^ power := by
  have ones : mask.toNat = 2 ^ power - 1 := by omega
  rw [slotUnder, UInt32.toNat_and, ones, Nat.and_two_pow_sub_one_eq_mod]

theorem tableMask_size {power : Nat} (small : power ≤ 31) :
    (tableMask power).toNat + 1 = 2 ^ power :=
  (@dictCreate_sized Unit power small).mask

/-- Keys of one slot of the larger table have one slot in the smaller one. -/
theorem slot_of_slotUnder (sized : dict.Sized) {mask : UInt32}
    (size : mask.toNat + 1 = 2 ^ (dict.power + 1))
    (same : slotUnder mask key = slotUnder mask other) : dict.slot key = dict.slot other := by
  have halves : 2 ^ dict.power ∣ 2 ^ (dict.power + 1) := Nat.pow_dvd_pow 2 (Nat.le_succ _)
  rw [slotUnder_of_mask size, slotUnder_of_mask size] at same
  show slotUnder dict.bitMask key = slotUnder dict.bitMask other
  rw [slotUnder_of_mask sized.mask, slotUnder_of_mask sized.mask, ← Nat.mod_mod_of_dvd _ halves,
    same, Nat.mod_mod_of_dvd _ halves]

/-! ### The new table -/

variable {mask : UInt32}

theorem rehash_of_nil {index : Nat} (chain : dict.hashTbl index = []) :
    rehash dict mask (index + 1) = rehash dict mask index := by
  simp only [rehash, chain]

theorem rehash_of_cons {index : Nat} {head : DictEntry V} {rest : List (DictEntry V)}
    (chain : dict.hashTbl index = head :: rest) :
    rehash dict mask (index + 1) =
      Slots.set (rehash dict mask index) (slotUnder mask head.key) (head :: rest) := by
  simp only [rehash, chain]

/-- What stands in the new table came there with the head of its chain. -/
theorem mem_rehash {size index : Nat} {entry : DictEntry V}
    (member : entry ∈ rehash dict mask size index) :
    ∃ old < size, ∃ head rest, dict.hashTbl old = head :: rest ∧
      slotUnder mask head.key = index ∧ entry ∈ head :: rest := by
  induction size with
  | zero => cases member
  | succ size inductionHypothesis =>
    have before (inside : entry ∈ rehash dict mask size index) :
        ∃ old < size + 1, ∃ head rest, dict.hashTbl old = head :: rest ∧
          slotUnder mask head.key = index ∧ entry ∈ head :: rest := by
      obtain ⟨old, earlier, found⟩ := inductionHypothesis inside
      exact ⟨old, Nat.lt_succ_of_lt earlier, found⟩
    cases chain : dict.hashTbl size with
    | nil =>
      rw [rehash_of_nil chain] at member
      exact before member
    | cons head rest =>
      rw [rehash_of_cons chain] at member
      by_cases here : index = slotUnder mask head.key
      · rw [here, Slots.set_self] at member
        exact ⟨size, Nat.lt_succ_self size, head, rest, chain, here.symm, member⟩
      · rw [Slots.set_of_ne _ _ here] at member
        exact before member

/-- The slot a chain goes to is empty until then. -/
theorem rehash_empty (sized : dict.Sized) (located : dict.Located)
    (size : mask.toNat + 1 = 2 ^ (dict.power + 1)) {index : Nat} {head : DictEntry V}
    {rest : List (DictEntry V)} (chain : dict.hashTbl index = head :: rest) :
    rehash dict mask index (slotUnder mask head.key) = [] := by
  refine List.eq_nil_iff_forall_not_mem.mpr fun entry member => ?_
  obtain ⟨old, earlier, other, others, own, same, -⟩ := mem_rehash member
  have otherSlot := (located old other (own ▸ List.mem_cons_self)).1
  have headSlot := (located index head (chain ▸ List.mem_cons_self)).1
  rw [slot_of_slotUnder sized size same, headSlot] at otherSlot
  omega

/-- The new table holds the entries of the old slots. -/
theorem contents_rehash (sized : dict.Sized) (located : dict.Located)
    (size : mask.toNat + 1 = 2 ^ (dict.power + 1)) (count : Nat) :
    (Slots.contents (rehash dict mask count) (2 ^ (dict.power + 1))).Perm
      (Slots.contents dict.hashTbl count) := by
  induction count with
  | zero =>
    refine List.Perm.of_eq ?_
    simp only [Slots.contents, rehash, List.flatMap_eq_nil_iff, implies_true, List.range_zero,
      List.flatMap_nil]
  | succ count inductionHypothesis =>
    rw [Slots.contents_succ]
    cases chain : dict.hashTbl count with
    | nil =>
      rw [rehash_of_nil chain, List.append_nil]
      exact inductionHypothesis
    | cons head rest =>
      have inside : slotUnder mask head.key < 2 ^ (dict.power + 1) := by
        rw [slotUnder_of_mask size]
        exact Nat.mod_lt _ (Nat.two_pow_pos _)
      have placed := Slots.contents_set_of_nil _ inside (rehash_empty sized located size chain)
        (head :: rest)
      rw [rehash_of_cons chain]
      exact (placed.trans (inductionHypothesis.append_left _)).trans List.perm_append_comm

/-- The chain of an old slot stands where its head belongs. -/
theorem rehash_of_chain (sized : dict.Sized) (located : dict.Located)
    (size : mask.toNat + 1 = 2 ^ (dict.power + 1)) {count index : Nat} (inside : index < count)
    {head : DictEntry V} {rest : List (DictEntry V)}
    (chain : dict.hashTbl index = head :: rest) :
    rehash dict mask count (slotUnder mask head.key) = head :: rest := by
  induction count with
  | zero => cases inside
  | succ count inductionHypothesis =>
    rcases Nat.lt_succ_iff_lt_or_eq.mp inside with earlier | rfl
    · cases own : dict.hashTbl count with
      | nil =>
        rw [rehash_of_nil own]
        exact inductionHypothesis earlier
      | cons other others =>
        rw [rehash_of_cons own, Slots.set_of_ne, inductionHypothesis earlier]
        intro same
        have otherSlot := (located count other (own ▸ List.mem_cons_self)).1
        have headSlot := (located index head (chain ▸ List.mem_cons_self)).1
        rw [slot_of_slotUnder sized size same, otherSlot] at headSlot
        omega
    · rw [rehash_of_cons chain, Slots.set_self]

/-! ### The expansion -/

/-- The entries of every chain have one slot in a table of twice the size. -/
def Uniform (dict : Dict V) : Prop :=
  ∀ index, ∀ first ∈ dict.hashTbl index, ∀ second ∈ dict.hashTbl index,
    slotUnder (tableMask (dict.power + 1)) first.key =
      slotUnder (tableMask (dict.power + 1)) second.key

/-- No entry is lost, wherever it stands now. -/
theorem entries_rehashed (placed : dict.Placed) (small : dict.power < 31) :
    (dict.rehashed (dict.power + 1)).entries.Perm dict.entries := by
  have rehashed := contents_rehash placed.sized placed.located (tableMask_size (by omega))
    (pwr2size dict.power).toNat
  have size : (pwr2size (dict.power + 1)).toNat = 2 ^ (dict.power + 1) :=
    pwr2size_toNat (by omega)
  rw [← size] at rehashed
  exact rehashed

/-- Every entry is in its slot if and only if no chain has to be divided. -/
theorem rehashed_located_iff (placed : dict.Placed) (small : dict.power < 31) :
    (dict.rehashed (dict.power + 1)).Located ↔ Uniform dict := by
  have size := @tableMask_size (dict.power + 1) (by omega)
  constructor
  · intro located
    have atHead {index : Nat} {head entry : DictEntry V} {rest : List (DictEntry V)}
        (chain : dict.hashTbl index = head :: rest) (member : entry ∈ head :: rest) :
        slotUnder (tableMask (dict.power + 1)) entry.key =
          slotUnder (tableMask (dict.power + 1)) head.key := by
      have inside : index < (pwr2size dict.power).toNat := by
        rw [← (placed.located index head (chain ▸ List.mem_cons_self)).1]
        exact placed.sized.slot_lt _
      rw [← rehash_of_chain placed.sized placed.located size inside chain] at member
      exact (located _ entry member).1
    intro index first inFirst second inSecond
    cases chain : dict.hashTbl index with
    | nil =>
      rw [chain] at inFirst
      cases inFirst
    | cons head rest =>
      rw [chain] at inFirst inSecond
      rw [atHead chain inFirst, atHead chain inSecond]
  · intro uniform index entry member
    obtain ⟨old, -, head, rest, chain, slot, inChain⟩ := mem_rehash member
    rw [← chain] at inChain
    refine ⟨?_, (placed.located old entry inChain).2⟩
    rw [← slot]
    exact uniform old entry inChain head (chain ▸ List.mem_cons_self)

theorem rehashed_wellFormed_iff (wellFormed : dict.WellFormed) (small : dict.power < 31) :
    (dict.rehashed (dict.power + 1)).WellFormed ↔ Uniform dict := by
  have entries := entries_rehashed wellFormed.toPlaced small
  rw [← rehashed_located_iff wellFormed.toPlaced small]
  refine ⟨fun rehashed => rehashed.located, fun located => ⟨⟨⟨?_, ?_⟩, located, ?_⟩, ?_⟩⟩
  · show dict.power + 1 ≤ 31
    omega
  · exact tableMask_size (by omega)
  · exact (entries.map _).nodup_iff.mpr wellFormed.distinct
  · rw [entries.length_eq]
    exact wellFormed.count

theorem lookUp_rehashed (wellFormed : dict.WellFormed) (small : dict.power < 31)
    (uniform : Uniform dict) (short : key.Short) :
    dictLookUp (dict.rehashed (dict.power + 1)) key = dictLookUp dict key :=
  lookUp_congr ((rehashed_wellFormed_iff wellFormed small).mpr uniform).toPlaced
    wellFormed.toPlaced short fun _ _ => (entries_rehashed wellFormed.toPlaced small).mem_iff

/-! ### Adding with expansion -/

variable [DictVal V] {env : Env}

/-- The value of a key after an addition. -/
def added (old : Option V) (obj : V) : V :=
  match old with
  | some old => if DictVal.isSetValPtr old then old else obj
  | none => obj

/-- One key is added or overwritten. -/
structure AddsOne (dict dict' : Dict V) (key : Bss) (obj : V) : Prop where
  wellFormed : dict'.WellFormed
  self : dictLookUp dict' key = some (added (dictLookUp dict key) obj)
  others : ∀ other : Bss, other.Short → other.content ≠ key.content →
    dictLookUp dict' other = dictLookUp dict other

theorem dictAdd_addsOne (wellFormed : dict.WellFormed) (short : key.Short) (obj : V) :
    AddsOne dict (dictAdd dict key obj) key obj := by
  refine ⟨dictAdd_wellFormed wellFormed short obj, lookUp_dictAdd_self wellFormed.sized key obj, ?_⟩
  exact fun other otherShort => lookUp_dictAdd_of_ne wellFormed.toPlaced short otherShort obj

/-- `dict_expand` to the next power gives a well formed dictionary with the same look-ups, and a
`dict_add` that expands first adds or overwrites one key. -/
structure Expands (env : Env) (dict : Dict V) : Prop where
  ret : (dictExpand env dict (dict.power + 1)).2 = 0
  power : (dictExpand env dict (dict.power + 1)).1.power = dict.power + 1
  wellFormed : (dictExpand env dict (dict.power + 1)).1.WellFormed
  lookUp : ∀ key : Bss, key.Short →
    dictLookUp (dictExpand env dict (dict.power + 1)).1 key = dictLookUp dict key
  add : ∀ (key : Bss) (obj : V), key.Short →
    AddsOne dict (dictAddResize env dict key obj) key obj

/-- An expansion is right exactly if no chain has to be divided. -/
theorem dictExpand_expands_iff (env : Env) (dict : Dict V) (wellFormed : dict.WellFormed)
    (small : dict.power < 31)
    (memory : env.malloc (sizeofPointer * tableSize (dict.power + 1)) = true) :
    Expands env dict ↔ Uniform dict := by
  have expanded : dictExpand env dict (dict.power + 1) = (dict.rehashed (dict.power + 1), 0) := by
    rw [dictExpand, if_pos memory]
  have formed := rehashed_wellFormed_iff wellFormed small
  constructor
  · intro expands
    have result := expands.wellFormed
    rw [expanded] at result
    exact formed.mp result
  · intro uniform
    have result := formed.mpr uniform
    have same (key : Bss) (short : key.Short) := lookUp_rehashed wellFormed small uniform short
    refine ⟨?_, ?_, ?_, ?_, fun key obj short => ?_⟩
    · rw [expanded]
    · rw [expanded]
      rfl
    · rw [expanded]
      exact result
    · rw [expanded]
      exact same
    · rw [dictAddResize, expanded]
      split
      · obtain ⟨formed', self, others⟩ := dictAdd_addsOne result short obj
        refine ⟨formed', ?_, fun other otherShort different => ?_⟩
        · rw [self, same key short]
        · rw [others other otherShort different, same other otherShort]
      · exact dictAdd_addsOne wellFormed short obj

/-- A set of four slots with one member. -/
def smallSet : Dict Unit := dictAddResize Env.plain (dictCreate 2) (textArg 1 "a") ()

theorem smallSet_wellFormed : smallSet.WellFormed :=
  dictAdd_wellFormed (dictCreate_wellFormed (by decide)) (textArg_arg 1 (by decide)).short ()

/-- A chain of two members whose hashes differ above the expanded mask only. -/
def chainSet : Dict Unit := dictAddResize Env.plain smallSet (textArg 2 "h") ()

theorem chainSet_wellFormed : chainSet.WellFormed := by
  rw [chainSet, dictAddResize, if_neg (by decide)]
  exact dictAdd_wellFormed smallSet_wellFormed (textArg_arg 2 (by decide)).short ()

/-- It is not divided by an expansion. -/
theorem dictExpand_expands_iff_chain :
    (chainSet.hashTbl 3).length = 2 ∧ Expands Env.plain chainSet := by
  refine ⟨rfl, (dictExpand_expands_iff Env.plain chainSet chainSet_wellFormed (by decide) rfl).mpr
    ?_⟩
  have chain : chainSet.hashTbl 3 = [⟨textArg 1 "a", ()⟩, ⟨textArg 2 "h", ()⟩] := rfl
  have slots : ∀ entry ∈ chainSet.hashTbl 3,
      slotUnder (tableMask (chainSet.power + 1)) entry.key = 3 := by
    rw [chain]
    decide
  intro index first inFirst second inSecond
  by_cases here : index = 3
  · subst here
    exact (slots first inFirst).trans (slots second inSecond).symm
  · have nothing : chainSet.hashTbl index = [] := (if_neg here).trans (if_neg here)
    rw [nothing] at inFirst
    cases inFirst

/-- A second member in the same slot. -/
def twoMembers : Dict Unit := dictAddResize Env.plain smallSet (textArg 2 "b") ()

/-- The third addition expands the set, and the second member is not found any more. -/
theorem dictExpand_loses_member :
    ∃ (env : Env) (dict : Dict Unit) (lost new : Bss), dict.WellFormed ∧ dict.power < 31 ∧
      lost.Short ∧ new.Short ∧
      env.malloc (sizeofPointer * tableSize (dict.power + 1)) = true ∧ ¬ Expands env dict ∧
      dictLookUp dict lost = some () ∧
      dictLookUp (dictExpand env dict (dict.power + 1)).1 lost = none ∧
      dictLookUp (dictAddResize env dict new ()) lost = none := by
  have short : (textArg 3 "b").Short := (textArg_arg 3 (by decide)).short
  have wellFormed : twoMembers.WellFormed := by
    rw [twoMembers, dictAddResize, if_neg (by decide)]
    exact dictAdd_wellFormed smallSet_wellFormed (textArg_arg 2 (by decide)).short ()
  have found : dictLookUp twoMembers (textArg 3 "b") = some () := rfl
  have lost : dictLookUp (dictExpand Env.plain twoMembers (twoMembers.power + 1)).1
      (textArg 3 "b") = none := rfl
  refine ⟨Env.plain, twoMembers, textArg 3 "b", textArg 4 "c", wellFormed, by decide, short,
    (textArg_arg 4 (by decide)).short, rfl, fun expands => ?_, found, lost, rfl⟩
  have same := expands.lookUp (textArg 3 "b") short
  rw [lost, found] at same
  cases same

end PseudoRedis
