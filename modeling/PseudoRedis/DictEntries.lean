/-
This file says what each dictionary operation does to the entries, seen as a list up to
permutation. A look-up either finds the entry of a key or finds none. In the first case
(`Found`) the dictionary is that entry and a remainder, and every operation on the key
edits the entry and keeps the remainder; in the second (`Absent`) an addition puts one
entry in front and a removal changes nothing. The later files read every dictionary
operation through these two statements and never open the chains again.
-/

import PseudoRedis.Dict
import Mathlib.Tactic.IntervalCases

namespace PseudoRedis

variable {V : Type}

/-! ### The size of a table -/

/-- The power fits the table and the mask belongs to it. -/
structure Dict.Sized (dict : Dict V) : Prop where
  power_le : dict.power ≤ 31
  mask : dict.bitMask.toNat + 1 = 2 ^ dict.power

theorem pwr2size_toNat {power : Nat} (small : power ≤ 31) : (pwr2size power).toNat = 2 ^ power := by
  interval_cases power <;> rfl

theorem Dict.Sized.slot_lt {dict : Dict V} (sized : dict.Sized) (key : Bss) :
    dict.slot key < (pwr2size dict.power).toNat := by
  have below : dict.slot key ≤ dict.bitMask.toNat := by
    rw [Dict.slot, UInt32.toNat_and]
    exact Nat.and_le_right
  have mask := sized.mask
  rw [pwr2size_toNat sized.power_le]
  omega

theorem dictCreate_sized {power : Nat} (small : power ≤ 31) :
    (dictCreate power : Dict V).Sized := by
  refine ⟨small, ?_⟩
  show (if power = 32 then 0xffffffff else ~~~pwr2size power &&& (pwr2size power - 1)).toNat + 1 =
    2 ^ power
  interval_cases power <;> rfl

@[simp]
theorem dictCreate_entries (power : Nat) : (dictCreate power : Dict V).entries = [] := by
  simp only [Dict.entries, Slots.contents, dictCreate, List.flatMap_eq_nil_iff, implies_true]

/-! ### The walk along a chain -/

theorem walk_append {key : Bss} {passed : List (DictEntry V)}
    (other : ∀ entry ∈ passed, bssCmp key entry.key ≠ 0) (before rest : List (DictEntry V)) :
    walk key before (passed ++ rest) = walk key (before ++ passed) rest := by
  induction passed generalizing before with
  | nil => rw [List.nil_append, List.append_nil]
  | cons entry passed inductionHypothesis =>
    rw [List.cons_append, walk, if_neg (other entry List.mem_cons_self),
      inductionHypothesis (fun e member => other e (List.mem_cons_of_mem _ member)),
      List.append_assoc, List.singleton_append]

/-- The walk cuts the chain: it passes entries under other keys, and what it stops at is under
the key. -/
theorem walk_spec (key : Bss) (before chain : List (DictEntry V)) :
    ∃ passed, (walk key before chain).before = before ++ passed ∧
      chain = passed ++ (walk key before chain).rest ∧
      (∀ entry ∈ passed, bssCmp key entry.key ≠ 0) ∧
      ∀ entry ∈ (walk key before chain).rest.head?, bssCmp key entry.key = 0 := by
  induction chain generalizing before with
  | nil =>
    refine ⟨[], (List.append_nil before).symm, rfl, fun _ member => ?_, fun _ member => ?_⟩
    · cases member
    · cases member
  | cons entry chain inductionHypothesis =>
    rw [walk]
    split
    · rename_i equal
      refine ⟨[], (List.append_nil before).symm, rfl, fun _ member => ?_, ?_⟩
      · cases member
      · rintro _ ⟨⟩
        exact equal
    · rename_i different
      obtain ⟨passed, cut, split, others, stop⟩ := inductionHypothesis (before ++ [entry])
      refine ⟨entry :: passed, ?_, ?_, ?_, stop⟩
      · rw [cut, List.append_assoc, List.singleton_append]
      · rw [List.cons_append, ← split]
      · intro e member
        rcases List.mem_cons.mp member with rfl | inPassed
        · exact different
        · exact others e inPassed

/-! ### A key that is there and a key that is not -/

/-- The dictionary holds an entry under the key; the other entries are a remainder that no
operation on the key touches. -/
structure Found (dict : Dict V) (key : Bss) (entry : DictEntry V)
    (others : List (DictEntry V)) : Prop where
  sized : dict.Sized
  equal : bssCmp key entry.key = 0
  split : ∃ before next remainder,
    dict.hashTbl (dict.slot key) = before ++ entry :: next ∧
    (∀ passed ∈ before, bssCmp key passed.key ≠ 0) ∧
    others = before ++ next ++ remainder ∧
    ∀ chain, (Slots.contents (Slots.set dict.hashTbl (dict.slot key) chain)
      (pwr2size dict.power).toNat).Perm (chain ++ remainder)

/-- The dictionary holds no entry under the key. -/
structure Absent (dict : Dict V) (key : Bss) : Prop where
  sized : dict.Sized
  different : ∀ entry ∈ dict.hashTbl (dict.slot key), bssCmp key entry.key ≠ 0

theorem Found.iter {dict : Dict V} {key : Bss} {entry : DictEntry V}
    {others : List (DictEntry V)} (found : Found dict key entry others) :
    ∃ before next remainder, dictLookUpIter dict key = ⟨before, entry :: next⟩ ∧
      (∀ passed ∈ before, bssCmp key passed.key ≠ 0) ∧
      others = before ++ next ++ remainder ∧
      ∀ chain, (Slots.contents (Slots.set dict.hashTbl (dict.slot key) chain)
        (pwr2size dict.power).toNat).Perm (chain ++ remainder) := by
  obtain ⟨before, next, remainder, chain, passed, rest⟩ := found.split
  refine ⟨before, next, remainder, ?_, passed, rest⟩
  rw [dictLookUpIter, dictLookUpHash, chain, walk_append passed, walk, if_pos found.equal,
    List.nil_append]

theorem Absent.iter {dict : Dict V} {key : Bss} (absent : Absent dict key) :
    dictLookUpIter dict key = ⟨dict.hashTbl (dict.slot key), []⟩ := by
  rw [dictLookUpIter, dictLookUpHash, ← List.append_nil (dict.hashTbl (dict.slot key)),
    walk_append absent.different, walk, List.nil_append, List.append_nil]

theorem Found.lookUp {dict : Dict V} {key : Bss} {entry : DictEntry V}
    {others : List (DictEntry V)} (found : Found dict key entry others) :
    dictLookUp dict key = some entry.val := by
  obtain ⟨before, next, remainder, iter, -⟩ := found.iter
  rw [dictLookUp, iter]
  rfl

/-- A look-up that answers stands on an entry. -/
theorem found_of_lookUp {dict : Dict V} (sized : dict.Sized) {key : Bss} {val : V}
    (answer : dictLookUp dict key = some val) :
    ∃ entry others, entry.val = val ∧ Found dict key entry others := by
  obtain ⟨passed, cut, chain, others, stop⟩ := walk_spec key [] (dict.hashTbl (dict.slot key))
  obtain ⟨remainder, -, contents⟩ := Slots.contents_split dict.hashTbl (sized.slot_lt key)
  rw [dictLookUp, dictLookUpIter, dictLookUpHash, DictIter.curr] at answer
  cases rest : (walk key [] (dict.hashTbl (dict.slot key))).rest with
  | nil =>
    rw [rest] at answer
    cases answer
  | cons entry next =>
    rw [rest] at answer stop chain
    refine ⟨entry, passed ++ next ++ remainder, Option.some.inj answer, sized, stop entry rfl,
      passed, next, remainder, chain, others, rfl, contents⟩

/-- A look-up that answers nothing has passed the whole chain. -/
theorem absent_of_lookUp {dict : Dict V} (sized : dict.Sized) {key : Bss}
    (answer : dictLookUp dict key = none) : Absent dict key := by
  obtain ⟨passed, cut, chain, others, stop⟩ := walk_spec key [] (dict.hashTbl (dict.slot key))
  rw [dictLookUp, dictLookUpIter, dictLookUpHash, DictIter.curr] at answer
  refine ⟨sized, ?_⟩
  cases rest : (walk key [] (dict.hashTbl (dict.slot key))).rest with
  | nil =>
    rw [rest, List.append_nil] at chain
    rwa [chain]
  | cons entry next =>
    rw [rest] at answer
    cases answer

/-! ### What the operations do to the entries -/

theorem Found.entries {dict : Dict V} {key : Bss} {entry : DictEntry V}
    {others : List (DictEntry V)} (found : Found dict key entry others) :
    dict.entries.Perm (entry :: others) := by
  obtain ⟨before, next, remainder, chain, -, rfl, contents⟩ := found.split
  have whole := contents (dict.hashTbl (dict.slot key))
  rw [Slots.set_eq_self, chain, List.append_assoc, List.cons_append] at whole
  rw [List.append_assoc]
  exact whole.trans List.perm_middle

/-- Replacing the entry's chain around the entry keeps the remainder. -/
theorem Found.replace {dict : Dict V} {key : Bss} {entry : DictEntry V}
    {others : List (DictEntry V)} (found : Found dict key entry others) (entry' : DictEntry V)
    (equal : bssCmp key entry'.key = 0) :
    ∃ before next, dictLookUpIter dict key = ⟨before, entry :: next⟩ ∧
      Found (dict.relink (dict.slot key) (before ++ entry' :: next)) key entry' others := by
  obtain ⟨before, next, remainder, iter, passed, rest, contents⟩ := found.iter
  refine ⟨before, next, iter, ⟨found.sized.power_le, found.sized.mask⟩, equal, before, next,
    remainder, Slots.set_self _ _ _, passed, rest, fun chain => ?_⟩
  have same := contents chain
  rwa [← Slots.set_set dict.hashTbl (dict.slot key) (before ++ entry' :: next) chain] at same

theorem Found.setVal {dict : Dict V} {key : Bss} {entry : DictEntry V}
    {others : List (DictEntry V)} (found : Found dict key entry others) (val : V) :
    Found (dictSetVal dict key val) key { entry with val } others := by
  obtain ⟨before, next, iter, replaced⟩ := found.replace { entry with val } found.equal
  rw [dictSetVal, iter]
  exact replaced

theorem Found.add [DictVal V] {dict : Dict V} {key : Bss} {entry : DictEntry V}
    {others : List (DictEntry V)} (found : Found dict key entry others) (obj : V) :
    Found (dictAdd dict key obj) key
      ⟨key, if DictVal.isSetValPtr entry.val then entry.val else obj⟩ others := by
  obtain ⟨before, next, iter, replaced⟩ := found.replace
    ⟨key, if DictVal.isSetValPtr entry.val then entry.val else obj⟩ (bssCmp_self key)
  rw [dictLookUpIter] at iter
  simp only [dictAdd, iter]
  exact replaced

theorem Found.addShallow {dict : Dict V} {key : Bss} {entry : DictEntry V}
    {others : List (DictEntry V)} (found : Found dict key entry others) (obj : V) :
    dictAddShallow dict key obj = dict := by
  obtain ⟨before, next, remainder, iter, -⟩ := found.iter
  rw [dictLookUpIter] at iter
  simp only [dictAddShallow, iter]

theorem Found.setVal_entryNum {dict : Dict V} {key : Bss} {entry : DictEntry V}
    {others : List (DictEntry V)} (found : Found dict key entry others) (val : V) :
    (dictSetVal dict key val).entryNum = dict.entryNum := by
  obtain ⟨before, next, remainder, iter, -⟩ := found.iter
  simp only [dictSetVal, iter, Dict.relink]

theorem Found.add_entryNum [DictVal V] {dict : Dict V} {key : Bss} {entry : DictEntry V}
    {others : List (DictEntry V)} (found : Found dict key entry others) (obj : V) :
    (dictAdd dict key obj).entryNum = dict.entryNum := by
  obtain ⟨before, next, remainder, iter, -⟩ := found.iter
  rw [dictLookUpIter] at iter
  simp only [dictAdd, iter, Dict.relink]

theorem slot_congr {first second : Dict V} (mask : first.bitMask = second.bitMask) (key : Bss) :
    first.slot key = second.slot key := by
  rw [Dict.slot, Dict.slot, mask]

theorem slot_relink (dict : Dict V) (hash : Nat) (chain : List (DictEntry V)) (key : Bss) :
    (dict.relink hash chain).slot key = dict.slot key := rfl

theorem relink_self (dict : Dict V) (hash : Nat) (chain : List (DictEntry V)) :
    (dict.relink hash chain).hashTbl hash = chain := Slots.set_self _ _ _

theorem relink_relink (dict : Dict V) (hash : Nat) (first second : List (DictEntry V)) :
    (dict.relink hash first).relink hash second = dict.relink hash second := by
  rw [Dict.relink, Dict.relink, Slots.set_set]
  rfl

/-- What a removal does to a dictionary whose look-up stands on an entry. -/
theorem dictRmNf_of_iter {dict : Dict V} {key : Bss} {before next : List (DictEntry V)}
    {entry : DictEntry V}
    (iter : dictLookUpHash dict (dict.slot key) key = ⟨before, entry :: next⟩) :
    dictRmNf dict key = ({ dict.relink (dict.slot key) (before ++ next) with
      entryNum := dict.entryNum - 1 }, some entry) := by
  simp only [dictRmNf, iter]

/-- Removing the key leaves the remainder. -/
theorem Found.rmNf {dict : Dict V} {key : Bss} {entry : DictEntry V}
    {others : List (DictEntry V)} (found : Found dict key entry others) :
    (dictRmNf dict key).2 = some entry ∧ (dictRmNf dict key).1.entries.Perm others ∧
      (dictRmNf dict key).1.entryNum = dict.entryNum - 1 := by
  obtain ⟨before, next, remainder, iter, -, rfl, contents⟩ := found.iter
  rw [dictLookUpIter] at iter
  rw [dictRmNf_of_iter iter]
  exact ⟨rfl, contents (before ++ next), rfl⟩

theorem Absent.rmNf {dict : Dict V} {key : Bss} (absent : Absent dict key) :
    dictRmNf dict key = (dict, none) := by
  have iter := absent.iter
  rw [dictLookUpIter] at iter
  simp only [dictRmNf, iter]

/-- An entry that is taken out was found. -/
theorem found_of_taken {dict dict' : Dict V} (sized : dict.Sized) {key : Bss} {entry : DictEntry V}
    (taken : dictRmNf dict key = (dict', some entry)) :
    ∃ others, Found dict key entry others ∧ dict'.entries.Perm others := by
  cases answer : dictLookUp dict key with
  | none =>
    rw [(absent_of_lookUp sized answer).rmNf] at taken
    cases taken
  | some val =>
    obtain ⟨own, others, -, found⟩ := found_of_lookUp sized answer
    obtain ⟨out, left, -⟩ := found.rmNf
    rw [taken] at out left
    cases out
    exact ⟨others, found, left⟩

/-- Linking a new entry in at the end of its chain. -/
theorem Absent.link {dict : Dict V} {key : Bss} (absent : Absent dict key) (obj : V)
    (count : Int) :
    ∃ others, others.Perm dict.entries ∧
      Found { dict.relink (dict.slot key) (dict.hashTbl (dict.slot key) ++ [⟨key, obj⟩]) with
        entryNum := count } key ⟨key, obj⟩ others := by
  obtain ⟨remainder, whole, contents⟩ :=
    Slots.contents_split dict.hashTbl (absent.sized.slot_lt key)
  refine ⟨dict.hashTbl (dict.slot key) ++ [] ++ remainder, ?_,
    ⟨absent.sized.power_le, absent.sized.mask⟩, bssCmp_self key,
    dict.hashTbl (dict.slot key), [], remainder, Slots.set_self _ _ _, absent.different, rfl,
    fun chain => ?_⟩
  · rw [List.append_nil]
    exact whole.symm
  · have same := contents chain
    rwa [← Slots.set_set dict.hashTbl (dict.slot key)
      (dict.hashTbl (dict.slot key) ++ [⟨key, obj⟩]) chain] at same

theorem Absent.add [DictVal V] {dict : Dict V} {key : Bss} (absent : Absent dict key) (obj : V) :
    ∃ others, others.Perm dict.entries ∧ Found (dictAdd dict key obj) key ⟨key, obj⟩ others ∧
      (dictAdd dict key obj).entryNum = dict.entryNum + 1 := by
  have iter := absent.iter
  rw [dictLookUpIter] at iter
  obtain ⟨others, same, found⟩ := absent.link obj (dict.entryNum + 1)
  have added : dictAdd dict key obj =
      { dict.relink (dict.slot key) (dict.hashTbl (dict.slot key) ++ [⟨key, obj⟩]) with
        entryNum := dict.entryNum + 1 } := by
    simp only [dictAdd, iter]
  rw [added]
  exact ⟨others, same, found, rfl⟩

theorem Absent.addShallow_eq [DictVal V] {dict : Dict V} {key : Bss} (absent : Absent dict key)
    (obj : V) : dictAddShallow dict key obj = dictAdd dict key obj := by
  have iter := absent.iter
  rw [dictLookUpIter] at iter
  simp only [dictAddShallow, dictAdd, iter]

/-- Assigning the value that is there changes nothing. -/
theorem dictSetVal_self {dict : Dict V} (sized : dict.Sized) {key : Bss} {val : V}
    (answer : dictLookUp dict key = some val) : dictSetVal dict key val = dict := by
  obtain ⟨entry, others, rfl, found⟩ := found_of_lookUp sized answer
  obtain ⟨before, next, remainder, chain, passed, -⟩ := found.split
  have iter : dictLookUpIter dict key = ⟨before, entry :: next⟩ := by
    rw [dictLookUpIter, dictLookUpHash, chain, walk_append passed, walk, if_pos found.equal,
      List.nil_append]
  simp only [dictSetVal, iter, Dict.relink, ← chain, Slots.set_eq_self]

/-- Removing a key forgets what was assigned to it. -/
theorem dictRmNf_dictSetVal {dict : Dict V} (sized : dict.Sized) {key : Bss} {old : V}
    (answer : dictLookUp dict key = some old) (val : V) :
    (dictRmNf (dictSetVal dict key val) key).1 = (dictRmNf dict key).1 := by
  obtain ⟨entry, others, rfl, found⟩ := found_of_lookUp sized answer
  obtain ⟨before, next, remainder, iter, passed, -⟩ := found.iter
  have assigned : dictSetVal dict key val =
      dict.relink (dict.slot key) (before ++ { entry with val } :: next) := by
    simp only [dictSetVal, iter]
  have again : dictLookUpHash (dictSetVal dict key val) ((dictSetVal dict key val).slot key) key =
      ⟨before, { entry with val } :: next⟩ := by
    rw [assigned]
    show walk key [] ((dict.relink (dict.slot key) _).hashTbl (dict.slot key)) = _
    rw [relink_self, walk_append passed, walk, if_pos found.equal, List.nil_append]
  rw [dictRmNf_of_iter again, dictRmNf_of_iter iter, assigned]
  simp only [slot_relink, relink_relink]
  rfl

/-- Assigning to the entry a chain is cut at. -/
theorem dictSetVal_of_chain {dict : Dict V} {key : Bss} {before next : List (DictEntry V)}
    {entry : DictEntry V} (chain : dict.hashTbl (dict.slot key) = before ++ entry :: next)
    (passed : ∀ other ∈ before, bssCmp key other.key ≠ 0) (equal : bssCmp key entry.key = 0)
    (val : V) :
    dictSetVal dict key val =
      dict.relink (dict.slot key) (before ++ { entry with val } :: next) := by
  have iter : dictLookUpIter dict key = ⟨before, entry :: next⟩ := by
    rw [dictLookUpIter, dictLookUpHash, chain, walk_append passed, walk, if_pos equal,
      List.nil_append]
  rw [dictSetVal, iter]

/-- Assigning twice forgets the first value. -/
theorem dictSetVal_dictSetVal {dict : Dict V} (sized : dict.Sized) {key : Bss} {old : V}
    (answer : dictLookUp dict key = some old) (first second : V) :
    dictSetVal (dictSetVal dict key first) key second = dictSetVal dict key second := by
  obtain ⟨entry, others, -, found⟩ := found_of_lookUp sized answer
  obtain ⟨before, next, remainder, chain, passed, -⟩ := found.split
  have assigned := dictSetVal_of_chain chain passed found.equal first
  have sameSlot : (dictSetVal dict key first).slot key = dict.slot key :=
    slot_congr (by rw [assigned]; rfl) key
  have again : (dictSetVal dict key first).hashTbl ((dictSetVal dict key first).slot key) =
      before ++ { entry with val := first } :: next := by
    rw [sameSlot, assigned]
    exact relink_self dict _ _
  rw [dictSetVal_of_chain again passed found.equal, sameSlot, assigned, relink_relink,
    dictSetVal_of_chain chain passed found.equal]

/-- Assigning to a key that was just linked in. -/
theorem dictSetVal_link {dict : Dict V} {key : Bss} {before next : List (DictEntry V)}
    (passed : ∀ other ∈ before, bssCmp key other.key ≠ 0) (first second : V) (count : Int)
    {linked : Dict V}
    (same : linked = { dict.relink (dict.slot key) (before ++ ⟨key, first⟩ :: next) with
      entryNum := count }) :
    dictSetVal linked key second =
      { dict.relink (dict.slot key) (before ++ ⟨key, second⟩ :: next) with
        entryNum := count } := by
  have sameSlot : linked.slot key = dict.slot key := slot_congr (by rw [same]; rfl) key
  have chain : linked.hashTbl (linked.slot key) = before ++ ⟨key, first⟩ :: next := by
    rw [sameSlot, same]
    exact relink_self dict _ _
  rw [dictSetVal_of_chain chain passed (bssCmp_self key), sameSlot, same]
  simp only [Dict.relink, Slots.set_set]

/-- Assigning to a key that was just added forgets the value it was added with. -/
theorem dictSetVal_dictAdd [DictVal V] {dict : Dict V} (sized : dict.Sized)
    (plain : ∀ val : V, DictVal.isSetValPtr val = false) (key : Bss) (first second : V) :
    dictSetVal (dictAdd dict key first) key second = dictAdd dict key second := by
  cases answer : dictLookUp dict key with
  | none =>
    have absent := absent_of_lookUp sized answer
    have iter := absent.iter
    rw [dictLookUpIter] at iter
    have added (val : V) : dictAdd dict key val =
        { dict.relink (dict.slot key) (dict.hashTbl (dict.slot key) ++ ⟨key, val⟩ :: []) with
          entryNum := dict.entryNum + 1 } := by
      simp only [dictAdd, iter]
    rw [dictSetVal_link absent.different first second _ (added first), added second]
  | some val =>
    obtain ⟨entry, others, -, found⟩ := found_of_lookUp sized answer
    obtain ⟨before, next, remainder, iter, passed, -⟩ := found.iter
    rw [dictLookUpIter] at iter
    have added (val : V) : dictAdd dict key val =
        { dict.relink (dict.slot key) (before ++ ⟨key, val⟩ :: next) with
          entryNum := dict.entryNum } := by
      simp only [dictAdd, iter, plain, Bool.false_eq_true, if_false, Dict.relink]
    rw [dictSetVal_link passed first second _ (added first), added second]

/-- A renamed key is removed and its value added under the new name, without the count. -/
theorem dictRename_eq [DictVal V] {dict dict' : Dict V} {key : Bss} {entry : DictEntry V}
    (taken : dictRmNf dict key = (dict', some entry)) (newKey : Bss)
    (plain : ∀ val : V, DictVal.isSetValPtr val = false) :
    dictRename dict key newKey =
      ({ dictAdd dict' newKey entry.val with entryNum := dict'.entryNum }, 0) := by
  simp only [dictRename, taken, dictAdd]
  cases (dictLookUpHash dict' (dict'.slot newKey) newKey).rest with
  | nil => rfl
  | cons curr next => simp only [plain, Bool.false_eq_true, if_false, Dict.relink]

/-! ### The size never changes -/

theorem dictRmNf_sized {dict : Dict V} (sized : dict.Sized) (key : Bss) :
    (dictRmNf dict key).1.Sized := by
  simp only [dictRmNf]
  split
  · exact sized
  · exact ⟨sized.power_le, sized.mask⟩

theorem dictRm_fst (dict : Dict V) (key : Bss) : (dictRm dict key).1 = (dictRmNf dict key).1 := by
  unfold dictRm
  split
  · rename_i removed
    rw [removed]
  · rename_i removed
    rw [removed]

theorem dictAdd_sized [DictVal V] {dict : Dict V} (sized : dict.Sized) (key : Bss) (obj : V) :
    (dictAdd dict key obj).Sized := by
  simp only [dictAdd]
  split
  · exact ⟨sized.power_le, sized.mask⟩
  · exact ⟨sized.power_le, sized.mask⟩

theorem dictSetVal_sized {dict : Dict V} (sized : dict.Sized) (key : Bss) (val : V) :
    (dictSetVal dict key val).Sized := by
  simp only [dictSetVal]
  split
  · exact sized
  · exact ⟨sized.power_le, sized.mask⟩

end PseudoRedis
