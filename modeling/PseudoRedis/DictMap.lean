/-
This file proves that the dictionary refines a finite map. The abstract side is a
partial function from byte strings to values, updated at one point by each operation.
The faithful side is the chained table. Between them stands the invariant: every entry
sits in the slot its masked hash names, no two entries have equal keys, and the count is
the number of entries.

A look-up under the invariant answers exactly the values of the entries whose key has
the same bytes (`lookUp_eq_some_iff`), so the refinement of each operation is a statement
about lists of entries, which `DictEntries` provides.
-/

import PseudoRedis.DictEntries

namespace PseudoRedis

variable {V : Type}

/-! ### The invariant -/

/-- Every entry sits in the slot of its key, and keys are short. -/
def Dict.Located (dict : Dict V) : Prop :=
  ∀ index, ∀ entry ∈ dict.hashTbl index, dict.slot entry.key = index ∧ entry.key.Short

/-- The shape of a dictionary, without its count. -/
structure Dict.Placed (dict : Dict V) : Prop where
  sized : dict.Sized
  located : dict.Located
  distinct : (dict.entries.map fun entry => entry.key.content).Nodup

/-- The shape of a dictionary, with its count. -/
structure Dict.WellFormed (dict : Dict V) : Prop extends dict.Placed where
  count : dict.entryNum = dict.entries.length

theorem dictCreate_wellFormed {power : Nat} (small : power ≤ 31) :
    (dictCreate power : Dict V).WellFormed := by
  have empty : (dictCreate power : Dict V).entries = [] := dictCreate_entries power
  have located : (dictCreate power : Dict V).Located := by
    intro _ _ member
    cases member
  refine ⟨⟨dictCreate_sized small, located, ?_⟩, ?_⟩
  · rw [empty]
    exact List.nodup_nil
  · rw [empty]
    rfl

theorem mem_entries {dict : Dict V} (sized : dict.Sized) (located : dict.Located)
    {entry : DictEntry V} :
    entry ∈ dict.entries ↔ entry ∈ dict.hashTbl (dict.slot entry.key) := by
  rw [Dict.entries, Slots.mem_contents]
  constructor
  · rintro ⟨index, -, member⟩
    rwa [(located index entry member).1]
  · exact fun member => ⟨_, sized.slot_lt entry.key, member⟩

theorem Dict.Placed.short {dict : Dict V} (placed : dict.Placed) {entry : DictEntry V}
    (member : entry ∈ dict.entries) : entry.key.Short :=
  (placed.located _ entry ((mem_entries placed.sized placed.located).mp member)).2

/-! ### Look-ups read the entries -/

/-- No entry has the bytes of an absent key. -/
theorem Absent.not_mem {dict : Dict V} {key : Bss} (absent : Absent dict key)
    (located : dict.Located) (short : key.Short) {entry : DictEntry V}
    (member : entry ∈ dict.entries) : entry.key.content ≠ key.content := by
  intro same
  have inSlot := (mem_entries absent.sized located).mp member
  have entryShort := (located _ entry inSlot).2
  have sameSlot : dict.slot entry.key = dict.slot key := by
    rw [Dict.slot, Dict.slot, dictGetHash_congr entryShort short same]
  rw [sameSlot] at inSlot
  exact absent.different entry inSlot ((bssCmp_eq_zero_iff short entryShort).mpr same.symm)

/-- The entry a look-up stands on has the bytes of the key. -/
theorem Found.content {dict : Dict V} {key : Bss} {entry : DictEntry V}
    {others : List (DictEntry V)} (found : Found dict key entry others) (placed : dict.Placed)
    (short : key.Short) : entry.key.content = key.content := by
  have member : entry ∈ dict.entries := found.entries.mem_iff.mpr List.mem_cons_self
  exact ((bssCmp_eq_zero_iff short (placed.short member)).mp found.equal).symm

/-- The remainder has no entry with the bytes of the key. -/
theorem Found.not_mem {dict : Dict V} {key : Bss} {entry : DictEntry V}
    {others : List (DictEntry V)} (found : Found dict key entry others) (placed : dict.Placed)
    (short : key.Short) {other : DictEntry V} (member : other ∈ others) :
    other.key.content ≠ key.content := by
  have distinct := (found.entries.map fun e => e.key.content).nodup_iff.mp placed.distinct
  rw [List.map_cons, List.nodup_cons, found.content placed short] at distinct
  exact fun same => distinct.1 (same ▸ List.mem_map_of_mem member)

/-- A look-up answers the value of the entry with the same bytes. -/
theorem lookUp_eq_some_iff {dict : Dict V} (placed : dict.Placed) {key : Bss} (short : key.Short)
    {val : V} :
    dictLookUp dict key = some val ↔
      ∃ entry ∈ dict.entries, entry.key.content = key.content ∧ entry.val = val := by
  constructor
  · intro answer
    obtain ⟨entry, others, sameVal, found⟩ := found_of_lookUp placed.sized answer
    exact ⟨entry, found.entries.mem_iff.mpr List.mem_cons_self, found.content placed short, sameVal⟩
  · rintro ⟨entry, member, same, rfl⟩
    cases answer : dictLookUp dict key with
    | none =>
      exact absurd same ((absent_of_lookUp placed.sized answer).not_mem placed.located short member)
    | some val =>
      obtain ⟨entry', others, rfl, found⟩ := found_of_lookUp placed.sized answer
      rcases List.mem_cons.mp (found.entries.mem_iff.mp member) with rfl | inOthers
      · rfl
      · exact absurd same (found.not_mem placed short inOthers)

/-- Dictionaries with the same entries up to order answer alike. -/
theorem lookUp_congr {first second : Dict V} (firstPlaced : first.Placed)
    (secondPlaced : second.Placed) {key : Bss} (short : key.Short)
    (same : ∀ entry, entry.key.content = key.content →
      (entry ∈ first.entries ↔ entry ∈ second.entries)) :
    dictLookUp first key = dictLookUp second key := by
  refine Option.ext fun val => ?_
  rw [lookUp_eq_some_iff firstPlaced short, lookUp_eq_some_iff secondPlaced short]
  constructor
  · rintro ⟨entry, member, sameKey, sameVal⟩
    exact ⟨entry, (same entry sameKey).mp member, sameKey, sameVal⟩
  · rintro ⟨entry, member, sameKey, sameVal⟩
    exact ⟨entry, (same entry sameKey).mpr member, sameKey, sameVal⟩

/-! ### The operations keep the shape -/

theorem iter_append (dict : Dict V) (key : Bss) :
    (dictLookUpIter dict key).before ++ (dictLookUpIter dict key).rest =
      dict.hashTbl (dict.slot key) := by
  obtain ⟨passed, cut, chain, -⟩ := walk_spec key [] (dict.hashTbl (dict.slot key))
  rw [List.nil_append] at cut
  rw [dictLookUpIter, dictLookUpHash, cut]
  exact chain.symm

/-- Relinking a slot with entries of that slot keeps every entry in its slot. -/
theorem relink_located {dict : Dict V} (located : dict.Located) {hash : Nat}
    {chain : List (DictEntry V)}
    (belongs : ∀ entry ∈ chain, dict.slot entry.key = hash ∧ entry.key.Short) :
    (dict.relink hash chain).Located := by
  intro index entry member
  by_cases same : index = hash
  · subst same
    simp only [Dict.relink, Slots.set_self] at member
    exact belongs entry member
  · simp only [Dict.relink, Slots.set_of_ne _ _ same] at member
    exact located index entry member

theorem iter_belongs {dict : Dict V} (located : dict.Located) (key : Bss)
    (entry : DictEntry V)
    (member : entry ∈ (dictLookUpIter dict key).before ∨
      entry ∈ (dictLookUpIter dict key).rest) :
    dict.slot entry.key = dict.slot key ∧ entry.key.Short := by
  refine located _ entry ?_
  rw [← iter_append dict key]
  exact List.mem_append.mpr member

theorem dictRmNf_located {dict : Dict V} (located : dict.Located) (key : Bss) :
    (dictRmNf dict key).1.Located := by
  have belongs := iter_belongs located key
  rw [dictLookUpIter] at belongs
  simp only [dictRmNf]
  split
  · exact located
  · rename_i rest
    rw [rest] at belongs
    refine relink_located located fun entry member => belongs entry ?_
    rcases List.mem_append.mp member with inBefore | inNext
    · exact Or.inl inBefore
    · exact Or.inr (List.mem_cons_of_mem _ inNext)

theorem dictAdd_located [DictVal V] {dict : Dict V} (located : dict.Located) {key : Bss}
    (short : key.Short) (obj : V) : (dictAdd dict key obj).Located := by
  have belongs := iter_belongs located key
  rw [dictLookUpIter] at belongs
  simp only [dictAdd]
  split
  · rename_i rest
    rw [rest] at belongs
    refine relink_located located fun entry member => ?_
    rcases List.mem_append.mp member with inBefore | inNext
    · exact belongs entry (Or.inl inBefore)
    · rcases List.mem_cons.mp inNext with rfl | inNext
      · exact ⟨rfl, short⟩
      · exact belongs entry (Or.inr (List.mem_cons_of_mem _ inNext))
  · refine relink_located located fun entry member => ?_
    rcases List.mem_append.mp member with inBefore | new
    · exact belongs entry (Or.inl inBefore)
    · rw [List.mem_singleton.mp new]
      exact ⟨rfl, short⟩

theorem dictSetVal_located {dict : Dict V} (located : dict.Located) (key : Bss) (val : V) :
    (dictSetVal dict key val).Located := by
  have belongs := iter_belongs located key
  simp only [dictSetVal]
  split
  · exact located
  · rename_i curr next rest
    rw [rest] at belongs
    refine relink_located located fun entry member => ?_
    rcases List.mem_append.mp member with inBefore | inNext
    · exact belongs entry (Or.inl inBefore)
    · rcases List.mem_cons.mp inNext with rfl | inNext
      · exact belongs curr (Or.inr List.mem_cons_self)
      · exact belongs entry (Or.inr (List.mem_cons_of_mem _ inNext))

theorem dictRmNf_placed {dict : Dict V} (placed : dict.Placed) (key : Bss) :
    (dictRmNf dict key).1.Placed := by
  refine ⟨dictRmNf_sized placed.sized key, dictRmNf_located placed.located key, ?_⟩
  cases answer : dictLookUp dict key with
  | none =>
    rw [(absent_of_lookUp placed.sized answer).rmNf]
    exact placed.distinct
  | some val =>
    obtain ⟨entry, others, -, found⟩ := found_of_lookUp placed.sized answer
    have distinct := (found.entries.map fun e => e.key.content).nodup_iff.mp placed.distinct
    rw [List.map_cons, List.nodup_cons] at distinct
    exact ((found.rmNf.2.1).map _).nodup_iff.mpr distinct.2

theorem dictAdd_placed [DictVal V] {dict : Dict V} (placed : dict.Placed) {key : Bss}
    (short : key.Short) (obj : V) : (dictAdd dict key obj).Placed := by
  refine ⟨dictAdd_sized placed.sized key obj, dictAdd_located placed.located short obj, ?_⟩
  cases answer : dictLookUp dict key with
  | none =>
    have absent := absent_of_lookUp placed.sized answer
    obtain ⟨others, same, found, -⟩ := absent.add obj
    refine ((found.entries.trans (same.cons _)).map _).nodup_iff.mpr ?_
    rw [List.map_cons, List.nodup_cons]
    refine ⟨fun member => ?_, placed.distinct⟩
    obtain ⟨entry, inEntries, sameKey⟩ := List.mem_map.mp member
    exact absent.not_mem placed.located short inEntries sameKey
  | some val =>
    obtain ⟨entry, others, -, found⟩ := found_of_lookUp placed.sized answer
    have distinct := (found.entries.map fun e => e.key.content).nodup_iff.mp placed.distinct
    refine ((found.add obj).entries.map _).nodup_iff.mpr ?_
    rw [List.map_cons] at distinct ⊢
    rwa [← found.content placed short]

theorem dictSetVal_placed {dict : Dict V} (placed : dict.Placed) (key : Bss) (val : V) :
    (dictSetVal dict key val).Placed := by
  refine ⟨dictSetVal_sized placed.sized key val, dictSetVal_located placed.located key val, ?_⟩
  cases answer : dictLookUp dict key with
  | none =>
    simp only [dictSetVal, (absent_of_lookUp placed.sized answer).iter]
    exact placed.distinct
  | some old =>
    obtain ⟨entry, others, -, found⟩ := found_of_lookUp placed.sized answer
    have distinct := (found.entries.map fun e => e.key.content).nodup_iff.mp placed.distinct
    refine ((found.setVal val).entries.map _).nodup_iff.mpr ?_
    rwa [List.map_cons] at distinct ⊢

theorem dictAdd_wellFormed [DictVal V] {dict : Dict V} (wellFormed : dict.WellFormed) {key : Bss}
    (short : key.Short) (obj : V) : (dictAdd dict key obj).WellFormed := by
  refine ⟨dictAdd_placed wellFormed.toPlaced short obj, ?_⟩
  cases answer : dictLookUp dict key with
  | none =>
    obtain ⟨others, same, found, count⟩ := (absent_of_lookUp wellFormed.sized answer).add obj
    rw [count, wellFormed.count, found.entries.length_eq, List.length_cons, same.length_eq]
    rfl
  | some val =>
    obtain ⟨entry, others, -, found⟩ := found_of_lookUp wellFormed.sized answer
    have length := found.entries.length_eq
    rw [List.length_cons] at length
    rw [found.add_entryNum, wellFormed.count, (found.add obj).entries.length_eq, List.length_cons,
      length]

theorem dictRmNf_wellFormed {dict : Dict V} (wellFormed : dict.WellFormed) (key : Bss) :
    (dictRmNf dict key).1.WellFormed := by
  refine ⟨dictRmNf_placed wellFormed.toPlaced key, ?_⟩
  cases answer : dictLookUp dict key with
  | none =>
    rw [(absent_of_lookUp wellFormed.sized answer).rmNf]
    exact wellFormed.count
  | some val =>
    obtain ⟨entry, others, -, found⟩ := found_of_lookUp wellFormed.sized answer
    have length := found.entries.length_eq
    rw [List.length_cons] at length
    rw [found.rmNf.2.2, wellFormed.count, found.rmNf.2.1.length_eq, length, Nat.cast_add_one,
      add_sub_cancel_right]

theorem dictSetVal_wellFormed {dict : Dict V} (wellFormed : dict.WellFormed) (key : Bss) (val : V) :
    (dictSetVal dict key val).WellFormed := by
  refine ⟨dictSetVal_placed wellFormed.toPlaced key val, ?_⟩
  cases answer : dictLookUp dict key with
  | none =>
    simp only [dictSetVal, (absent_of_lookUp wellFormed.sized answer).iter]
    exact wellFormed.count
  | some old =>
    obtain ⟨entry, others, -, found⟩ := found_of_lookUp wellFormed.sized answer
    have length := found.entries.length_eq
    rw [List.length_cons] at length
    rw [found.setVal_entryNum, wellFormed.count, (found.setVal val).entries.length_eq,
      List.length_cons, length]

/-! ### What the operations do to look-ups -/

/-- An addition answers the added value under the key, the old one if that is `SET_VAL_PTR`. -/
@[simp]
theorem lookUp_dictAdd_self [DictVal V] {dict : Dict V} (sized : dict.Sized) (key : Bss)
    (obj : V) :
    dictLookUp (dictAdd dict key obj) key =
      some (match dictLookUp dict key with
        | some old => if DictVal.isSetValPtr old then old else obj
        | none => obj) := by
  cases answer : dictLookUp dict key with
  | none =>
    obtain ⟨others, -, found, -⟩ := (absent_of_lookUp sized answer).add obj
    exact found.lookUp
  | some val =>
    obtain ⟨entry, others, rfl, found⟩ := found_of_lookUp sized answer
    exact (found.add obj).lookUp

theorem mem_cons_of_content {entry head : DictEntry V} {rest : List (DictEntry V)}
    (different : entry.key.content ≠ head.key.content) : entry ∈ head :: rest ↔ entry ∈ rest := by
  rw [List.mem_cons, or_iff_right]
  exact fun same => different (same ▸ rfl)

@[simp]
theorem lookUp_dictAdd_of_ne [DictVal V] {dict : Dict V} (placed : dict.Placed) {key other : Bss}
    (short : key.Short) (otherShort : other.Short) (obj : V)
    (different : other.content ≠ key.content) :
    dictLookUp (dictAdd dict key obj) other = dictLookUp dict other := by
  refine lookUp_congr (dictAdd_placed placed short obj) placed otherShort fun entry same => ?_
  have entryDifferent : entry.key.content ≠ key.content := same ▸ different
  cases answer : dictLookUp dict key with
  | none =>
    obtain ⟨others, same, found, -⟩ := (absent_of_lookUp placed.sized answer).add obj
    rw [found.entries.mem_iff, mem_cons_of_content entryDifferent, same.mem_iff]
  | some val =>
    obtain ⟨old, others, -, found⟩ := found_of_lookUp placed.sized answer
    have oldDifferent : entry.key.content ≠ old.key.content := by
      rwa [found.content placed short]
    rw [(found.add obj).entries.mem_iff, mem_cons_of_content entryDifferent,
      found.entries.mem_iff, mem_cons_of_content oldDifferent]

@[simp]
theorem lookUp_dictRmNf_self {dict : Dict V} (placed : dict.Placed) {key : Bss}
    (short : key.Short) : dictLookUp (dictRmNf dict key).1 key = none := by
  cases answer : dictLookUp dict key with
  | none => rwa [(absent_of_lookUp placed.sized answer).rmNf]
  | some val =>
    obtain ⟨old, others, -, found⟩ := found_of_lookUp placed.sized answer
    refine Option.eq_none_iff_forall_ne_some.mpr fun val' answer' => ?_
    obtain ⟨entry, member, same, -⟩ :=
      (lookUp_eq_some_iff (dictRmNf_placed placed key) short).mp answer'
    exact found.not_mem placed short (found.rmNf.2.1.mem_iff.mp member) same

@[simp]
theorem lookUp_dictRmNf_of_ne {dict : Dict V} (placed : dict.Placed) {key other : Bss}
    (short : key.Short) (otherShort : other.Short) (different : other.content ≠ key.content) :
    dictLookUp (dictRmNf dict key).1 other = dictLookUp dict other := by
  refine lookUp_congr (dictRmNf_placed placed key) placed otherShort fun entry same => ?_
  cases answer : dictLookUp dict key with
  | none => rw [(absent_of_lookUp placed.sized answer).rmNf]
  | some val =>
    obtain ⟨old, others, -, found⟩ := found_of_lookUp placed.sized answer
    have oldDifferent : entry.key.content ≠ old.key.content := by
      rw [found.content placed short, same]
      exact different
    rw [found.rmNf.2.1.mem_iff, found.entries.mem_iff, mem_cons_of_content oldDifferent]

@[simp]
theorem lookUp_dictSetVal_of_ne {dict : Dict V} (placed : dict.Placed) {key other : Bss}
    (short : key.Short) (otherShort : other.Short) (val : V)
    (different : other.content ≠ key.content) :
    dictLookUp (dictSetVal dict key val) other = dictLookUp dict other := by
  refine lookUp_congr (dictSetVal_placed placed key val) placed otherShort fun entry same => ?_
  cases answer : dictLookUp dict key with
  | none => simp only [dictSetVal, (absent_of_lookUp placed.sized answer).iter]
  | some old =>
    obtain ⟨own, others, -, found⟩ := found_of_lookUp placed.sized answer
    have ownDifferent : entry.key.content ≠ own.key.content := by
      rw [found.content placed short, same]
      exact different
    rw [(found.setVal val).entries.mem_iff, found.entries.mem_iff,
      mem_cons_of_content ownDifferent, mem_cons_of_content]
    exact ownDifferent

@[simp]
theorem lookUp_dictSetVal_self {dict : Dict V} (sized : dict.Sized) {key : Bss} {old : V}
    (answer : dictLookUp dict key = some old) (val : V) :
    dictLookUp (dictSetVal dict key val) key = some val := by
  obtain ⟨entry, others, -, found⟩ := found_of_lookUp sized answer
  exact (found.setVal val).lookUp

theorem walk_congr {key other : Bss} (before : List (DictEntry V)) {chain : List (DictEntry V)}
    (same : ∀ entry ∈ chain, bssCmp key entry.key = 0 ↔ bssCmp other entry.key = 0) :
    walk key before chain = walk other before chain := by
  induction chain generalizing before with
  | nil => rfl
  | cons entry rest inductionHypothesis =>
    rw [walk, walk, inductionHypothesis _ fun e member => same e (List.mem_cons_of_mem _ member)]
    exact if_congr (same entry List.mem_cons_self) rfl rfl

/-- Keys with the same bytes are assigned to alike. -/
theorem dictSetVal_congr {dict : Dict V} (placed : dict.Placed) {key other : Bss}
    (short : key.Short) (otherShort : other.Short) (same : other.content = key.content) (val : V) :
    dictSetVal dict other val = dictSetVal dict key val := by
  have slots : dict.slot other = dict.slot key := by
    rw [Dict.slot, Dict.slot, dictGetHash_congr otherShort short same]
  have iters : dictLookUpIter dict other = dictLookUpIter dict key := by
    rw [dictLookUpIter, dictLookUpIter, slots, dictLookUpHash, dictLookUpHash]
    refine walk_congr [] fun entry member => ?_
    have entryShort := (placed.located _ entry member).2
    rw [bssCmp_eq_zero_iff otherShort entryShort, bssCmp_eq_zero_iff short entryShort, same]
  simp only [dictSetVal, iters, slots]

/-! ### The finite map a dictionary stands for -/

/-- The operations that change a dictionary. -/
inductive DictOp (V : Type) where
  | add (key : Bss) (obj : V)
  | addShallow (key : Bss) (obj : V)
  | rm (key : Bss)
  | rmNf (key : Bss)

def DictOp.key : DictOp V → Bss
  | .add key _ | .addShallow key _ | .rm key | .rmNf key => key

/-- An operation on the table. -/
def DictOp.run [DictVal V] (dict : Dict V) : DictOp V → Dict V
  | .add key obj => dictAdd dict key obj
  | .addShallow key obj => dictAddShallow dict key obj
  | .rm key => (dictRm dict key).1
  | .rmNf key => (dictRmNf dict key).1

/-- What an operation means on a partial map: an addition overwrites a value that is not
`SET_VAL_PTR`, a shallow addition keeps the old value, a removal forgets the key. -/
def DictOp.onMap [DictVal V] (map : Bytes → Option V) : DictOp V → Bytes → Option V
  | .add key obj => Function.update map key.content (some (match map key.content with
      | some old => if DictVal.isSetValPtr old then old else obj
      | none => obj))
  | .addShallow key obj => Function.update map key.content (some (match map key.content with
      | some old => old
      | none => obj))
  | .rm key | .rmNf key => Function.update map key.content none

/-- The table is well formed and answers what the map says. -/
structure Refines (dict : Dict V) (map : Bytes → Option V) : Prop where
  wellFormed : dict.WellFormed
  lookUp : ∀ key : Bss, key.Short → dictLookUp dict key = map key.content

theorem dictCreate_refines {power : Nat} (small : power ≤ 31) :
    Refines (dictCreate power : Dict V) fun _ => none :=
  ⟨dictCreate_wellFormed small, fun _ _ => rfl⟩

/-- A table that agrees with the updated map at the key and with the old one elsewhere refines the
updated map. -/
theorem Refines.update {dict dict' : Dict V} {map : Bytes → Option V} (refines : Refines dict map)
    (wellFormed : dict'.WellFormed) {key : Bss} {val : Option V}
    (self : ∀ other : Bss, other.Short → other.content = key.content →
      dictLookUp dict' other = val)
    (others : ∀ other : Bss, other.Short → other.content ≠ key.content →
      dictLookUp dict' other = dictLookUp dict other) :
    Refines dict' (Function.update map key.content val) := by
  refine ⟨wellFormed, fun other short => ?_⟩
  by_cases same : other.content = key.content
  · rw [same, Function.update_self, self other short same]
  · rw [Function.update_of_ne same, others other short same, refines.lookUp other short]

/-- Keys with the same bytes are the same key. -/
theorem lookUp_of_content {dict : Dict V} (placed : dict.Placed) {key other : Bss}
    (short : key.Short) (otherShort : other.Short) (same : other.content = key.content) :
    dictLookUp dict other = dictLookUp dict key := by
  refine Option.ext fun val => ?_
  rw [lookUp_eq_some_iff placed otherShort, lookUp_eq_some_iff placed short, same]

theorem Refines.add [DictVal V] {dict : Dict V} {map : Bytes → Option V}
    (refines : Refines dict map) {key : Bss} (short : key.Short) (obj : V) :
    Refines (dictAdd dict key obj) (DictOp.onMap map (.add key obj)) := by
  have placed := refines.wellFormed.toPlaced
  refine refines.update (dictAdd_wellFormed refines.wellFormed short obj)
    (fun other otherShort same => ?_)
    fun other otherShort different => lookUp_dictAdd_of_ne placed short otherShort obj different
  rw [lookUp_of_content (dictAdd_placed placed short obj) short otherShort same,
    lookUp_dictAdd_self placed.sized, refines.lookUp key short]

theorem Refines.addShallow [DictVal V] {dict : Dict V} {map : Bytes → Option V}
    (refines : Refines dict map) {key : Bss} (short : key.Short) (obj : V) :
    Refines (dictAddShallow dict key obj) (DictOp.onMap map (.addShallow key obj)) := by
  have placed := refines.wellFormed.toPlaced
  have agrees := refines.lookUp key short
  cases answer : dictLookUp dict key with
  | none =>
    rw [(absent_of_lookUp placed.sized answer).addShallow_eq obj]
    have added := refines.add short obj
    simp only [DictOp.onMap, ← agrees, answer] at added ⊢
    exact added
  | some old =>
    obtain ⟨entry, others, -, found⟩ := found_of_lookUp placed.sized answer
    rw [found.addShallow obj]
    simp only [DictOp.onMap, ← agrees, answer]
    rwa [← answer, agrees, Function.update_eq_self]

theorem Refines.rmNf {dict : Dict V} {map : Bytes → Option V} (refines : Refines dict map)
    {key : Bss} (short : key.Short) :
    Refines (dictRmNf dict key).1 (Function.update map key.content none) := by
  have placed := refines.wellFormed.toPlaced
  refine refines.update (dictRmNf_wellFormed refines.wellFormed key)
    (fun other otherShort same => ?_)
    fun other otherShort different => lookUp_dictRmNf_of_ne placed short otherShort different
  rw [lookUp_of_content (dictRmNf_placed placed key) short otherShort same,
    lookUp_dictRmNf_self placed short]

/-- One operation keeps the refinement. -/
theorem Refines.step [DictVal V] {dict : Dict V} {map : Bytes → Option V}
    (refines : Refines dict map) (op : DictOp V) (short : op.key.Short) :
    Refines (op.run dict) (op.onMap map) := by
  cases op with
  | add key obj => exact refines.add short obj
  | addShallow key obj => exact refines.addShallow short obj
  | rm key =>
    show Refines (dictRm dict key).1 _
    rw [dictRm_fst]
    exact refines.rmNf short
  | rmNf key => exact refines.rmNf short

/-- Every sequence of operations keeps the refinement. -/
theorem Refines.run [DictVal V] {dict : Dict V} {map : Bytes → Option V}
    (refines : Refines dict map) (ops : List (DictOp V)) (short : ∀ op ∈ ops, op.key.Short) :
    Refines (ops.foldl DictOp.run dict) (ops.foldl DictOp.onMap map) := by
  induction ops generalizing dict map with
  | nil => exact refines
  | cons op ops inductionHypothesis =>
    exact inductionHypothesis (refines.step op (short op List.mem_cons_self))
      fun other member => short other (List.mem_cons_of_mem _ member)

/-- A dictionary built by any operations on short keys is the finite map those operations
describe. Every entry sits in its slot, no two entries have equal keys, the count is the number
of entries, a look-up answers what the map says, and an operation on one key changes the look-up
of no other. -/
theorem dict_refines_map [DictVal V] (power : Nat) (small : power ≤ 31) (ops : List (DictOp V))
    (short : ∀ op ∈ ops, op.key.Short) :
    let dict := ops.foldl DictOp.run (dictCreate power)
    (∀ index, ∀ entry ∈ dict.hashTbl index,
      (dictGetHash entry.key &&& dict.bitMask).toNat = index) ∧
    dict.entries.Pairwise (fun first second => first.key.content ≠ second.key.content) ∧
    dict.entryNum = dict.entries.length ∧
    (∀ key : Bss, key.Short →
      dictLookUp dict key = ops.foldl DictOp.onMap (fun _ => none) key.content) ∧
    ∀ (op : DictOp V) (key : Bss), op.key.Short → key.Short → key.content ≠ op.key.content →
      dictLookUp (op.run dict) key = dictLookUp dict key := by
  have refines := (dictCreate_refines (V := V) small).run ops short
  have wellFormed := refines.wellFormed
  refine ⟨fun index entry member => (wellFormed.located index entry member).1,
    List.pairwise_map.mp wellFormed.distinct, wellFormed.count, refines.lookUp, ?_⟩
  intro op key opShort keyShort different
  rw [(refines.step op opShort).lookUp key keyShort, refines.lookUp key keyShort]
  cases op <;> exact Function.update_of_ne different _ _

/-- A member added to a set of two slots and removed again. -/
theorem dict_refines_map_add_rm :
    let key : Bss := ⟨0, 1, 21, [107, 0]⟩
    let dict := [DictOp.add key (), DictOp.rm key].foldl DictOp.run (dictCreate 1)
    dict.entryNum = dict.entries.length ∧ dictLookUp dict key = none := by
  have short : (⟨0, 1, 21, [107, 0]⟩ : Bss).Short := ⟨by decide, by decide⟩
  have spec := dict_refines_map 1 (by decide)
    [DictOp.add ⟨0, 1, 21, [107, 0]⟩ (), DictOp.rm ⟨0, 1, 21, [107, 0]⟩] fun op member => by
      rcases List.mem_cons.mp member with rfl | member
      · exact short
      · rw [List.mem_singleton.mp member]
        exact short
  refine ⟨spec.2.2.1, (spec.2.2.2.1 _ short).trans ?_⟩
  rfl

end PseudoRedis
