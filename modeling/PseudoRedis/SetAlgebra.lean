/-
This file proves that the set commands compute set algebra. Each of them builds a working
copy and edits it through callbacks. The copy starts empty and is filled with the keys of a
well formed set, so no key is added to it twice; the callbacks then remove members or add
new ones. Whatever the order of the keys, the tables and the collisions are, the members of
the copy are those of the intersection, the union or the difference.
-/

import PseudoRedis.Members
import PseudoRedis.NonEmpty

namespace PseudoRedis

variable {set newSet other : Dict Unit}

/-! ### Callbacks over a set -/

theorem short_entries (placed : set.Placed) : ∀ entry ∈ set.entries, entry.key.Short :=
  fun _ member => placed.short member

/-- Additions of the keys of entries. -/
theorem foldl_add {func : Dict Unit → DictEntry Unit → Dict Unit}
    (step : ∀ {set : Dict Unit}, set.WellFormed → ∀ {entry : DictEntry Unit}, entry.key.Short →
      (func set entry).WellFormed ∧
        members (func set entry) = insert entry.key.content (members set))
    {entries : List (DictEntry Unit)} (short : ∀ entry ∈ entries, entry.key.Short)
    (wellFormed : newSet.WellFormed) :
    (entries.foldl func newSet).WellFormed ∧ members (entries.foldl func newSet) =
      members newSet ∪ (entries.map fun entry => entry.key.content).toFinset := by
  induction entries generalizing newSet with
  | nil => exact ⟨wellFormed, (Finset.union_empty _).symm⟩
  | cons entry rest inductionHypothesis =>
    obtain ⟨added, inserted⟩ := step wellFormed (short entry List.mem_cons_self)
    obtain ⟨final, whole⟩ := inductionHypothesis
      (fun later member => short later (List.mem_cons_of_mem _ member)) added
    refine ⟨final, whole.trans ?_⟩
    rw [inserted, List.map_cons, List.toFinset_cons, Finset.insert_union, Finset.union_insert]

/-- Removals of the keys of entries, but for those that are kept. -/
theorem foldl_remove {func : Dict Unit → DictEntry Unit → Dict Unit}
    {keep : DictEntry Unit → Prop} [DecidablePred keep]
    (step : ∀ set entry, func set entry = if keep entry then set else (dictRmNf set entry.key).1)
    {entries : List (DictEntry Unit)} (short : ∀ entry ∈ entries, entry.key.Short)
    (wellFormed : newSet.WellFormed) :
    (entries.foldl func newSet).WellFormed ∧
      ∀ member, member ∈ members (entries.foldl func newSet) ↔ member ∈ members newSet ∧
        ∀ entry ∈ entries, entry.key.content = member → keep entry := by
  induction entries generalizing newSet with
  | nil => exact ⟨wellFormed, fun member => (and_iff_left fun _ inside => by cases inside).symm⟩
  | cons entry rest inductionHypothesis =>
    have entryShort := short entry List.mem_cons_self
    have restShort : ∀ later ∈ rest, later.key.Short := fun later member =>
      short later (List.mem_cons_of_mem _ member)
    rw [List.foldl_cons, step]
    by_cases kept : keep entry
    · rw [if_pos kept]
      obtain ⟨final, same⟩ := inductionHypothesis restShort wellFormed
      refine ⟨final, fun member => (same member).trans (and_congr_right fun _ => ?_)⟩
      rw [List.forall_mem_cons]
      exact (and_iff_right fun _ => kept).symm
    · rw [if_neg kept]
      obtain ⟨final, same⟩ := inductionHypothesis restShort
        (dictRmNf_wellFormed wellFormed entry.key)
      refine ⟨final, fun member => (same member).trans ?_⟩
      rw [members_dictRmNf wellFormed.toPlaced entryShort, Finset.mem_erase, List.forall_mem_cons]
      constructor
      · rintro ⟨⟨different, inside⟩, later⟩
        exact ⟨inside, fun equal => absurd equal.symm different, later⟩
      · rintro ⟨inside, first, later⟩
        exact ⟨⟨fun equal => kept (first equal.symm), inside⟩, later⟩

/-! ### The working copy -/

/-- A copy of a set has its members. -/
theorem copy_members (source : set.WellFormed) {power : Nat} (small : power ≤ 31) :
    (iterSet set dictCpyCallback (dictCreate power)).WellFormed ∧
      members (iterSet set dictCpyCallback (dictCreate power)) = members set := by
  rw [iterSet_eq]
  obtain ⟨copied, same⟩ := @foldl_add _ dictCpyCallback
    (fun wellFormed _ short => ⟨dictAdd_wellFormed wellFormed short (),
      members_dictAdd wellFormed.toPlaced short ()⟩)
    _ (short_entries source.toPlaced) (dictCreate_wellFormed small)
  refine ⟨copied, same.trans ?_⟩
  rw [members_create, Finset.empty_union]
  rfl

/-- While a set is copied, no key is there already when it is added. -/
def CopiesFresh (set : Dict Unit) (power : Nat) : Prop :=
  ∀ front entry back, set.entries = front ++ entry :: back →
    dictLookUp (front.foldl dictCpyCallback (dictCreate power)) entry.key = none

theorem copiesFresh (source : set.WellFormed) {power : Nat} (small : power ≤ 31) :
    CopiesFresh set power := by
  intro front entry back split
  have short := short_entries source.toPlaced
  have distinct := source.distinct
  rw [split] at short distinct
  rw [List.map_append, List.map_cons, List.nodup_append] at distinct
  obtain ⟨copied, same⟩ := @foldl_add _ dictCpyCallback
    (fun wellFormed _ short => ⟨dictAdd_wellFormed wellFormed short (),
      members_dictAdd wellFormed.toPlaced short ()⟩) front
    (fun earlier member => short earlier (List.mem_append_left _ member))
    (dictCreate_wellFormed small)
  rw [lookUp_member_none copied.toPlaced
    (short entry (List.mem_append_right _ List.mem_cons_self)), same, members_create,
    Finset.empty_union, List.mem_toFinset]
  exact fun member => distinct.2.2 _ member _ List.mem_cons_self rfl

/-! ### Difference, union, intersection -/

theorem remove_members (wellFormed : newSet.WellFormed) (source : other.WellFormed) :
    (iterSet other dictDiffCallback newSet).WellFormed ∧
      ∀ member, member ∈ members (iterSet other dictDiffCallback newSet) ↔
        member ∈ members newSet ∧ member ∉ members other := by
  rw [iterSet_eq]
  obtain ⟨final, same⟩ := @foldl_remove _ dictDiffCallback (fun _ => False) _
    (fun _ _ => (if_neg id).symm) _ (short_entries source.toPlaced) wellFormed
  refine ⟨final, fun member => (same member).trans (and_congr_right fun _ => ?_)⟩
  rw [mem_members, not_exists]
  exact forall_congr' fun entry => not_and.symm

/-- The members of the first set that no other set has. -/
theorem diffSet_members (source : set.WellFormed) {others : List (Option (Dict Unit))}
    (sources : ∀ other, some other ∈ others → other.WellFormed) :
    (diffSet set others).WellFormed ∧ ∀ member, member ∈ members (diffSet set others) ↔
      member ∈ members set ∧ ∀ other, some other ∈ others → member ∉ members other := by
  rw [diffSet]
  obtain ⟨copied, same⟩ := copy_members source source.sized.power_le
  rw [← same]
  generalize iterSet set dictCpyCallback (dictCreate set.power) = newSet at copied
  clear same
  induction others generalizing newSet with
  | nil => exact ⟨copied, fun member => (and_iff_left fun _ inside => by cases inside).symm⟩
  | cons first rest inductionHypothesis =>
    have restSources : ∀ other, some other ∈ rest → other.WellFormed := fun other member =>
      sources other (List.mem_cons_of_mem _ member)
    rw [List.foldl_cons]
    cases first with
    | none =>
      obtain ⟨final, whole⟩ := inductionHypothesis restSources _ copied
      refine ⟨final, fun member => (whole member).trans (and_congr_right fun _ => ?_)⟩
      exact forall_congr' fun other => by
        rw [List.mem_cons, or_iff_right (Option.some_ne_none other)]
    | some first =>
      obtain ⟨removed, left⟩ := remove_members copied (sources first List.mem_cons_self)
      obtain ⟨final, whole⟩ := inductionHypothesis restSources _ removed
      refine ⟨final, fun member => (whole member).trans ?_⟩
      rw [left, and_assoc]
      refine and_congr_right fun _ => ?_
      simp only [List.mem_cons, Option.some.injEq, forall_eq_or_imp]

/-- Adding the members of the sets to a copy. -/
theorem addAll_members {sets : List (Option (Dict Unit))}
    (sources : ∀ set, some set ∈ sets → set.WellFormed) (wellFormed : newSet.WellFormed) :
    let union := sets.foldl (fun newSet other =>
      match other with
      | none => newSet
      | some other => iterSet other dictUnionCallback newSet) newSet
    union.WellFormed ∧ ∀ member, member ∈ members union ↔
      member ∈ members newSet ∨ ∃ set, some set ∈ sets ∧ member ∈ members set := by
  induction sets generalizing newSet with
  | nil =>
    refine ⟨wellFormed, fun member => (or_iff_left ?_).symm⟩
    rintro ⟨set, inside, -⟩
    cases inside
  | cons first rest inductionHypothesis =>
    have restSources : ∀ set, some set ∈ rest → set.WellFormed := fun set member =>
      sources set (List.mem_cons_of_mem _ member)
    cases first with
    | none =>
      obtain ⟨final, whole⟩ := inductionHypothesis restSources wellFormed
      refine ⟨final, fun member => (whole member).trans (or_congr_right ?_)⟩
      exact exists_congr fun set => by rw [List.mem_cons, or_iff_right (Option.some_ne_none set)]
    | some first =>
      have source := sources first List.mem_cons_self
      obtain ⟨added, same⟩ := @foldl_add _ dictUnionCallback
        (fun wellFormed _ short => ⟨dictAddShallow_wellFormed wellFormed short,
          members_dictAddShallow wellFormed.toPlaced short⟩)
        _ (short_entries source.toPlaced) wellFormed
      rw [← iterSet_eq] at added same
      obtain ⟨final, whole⟩ := inductionHypothesis restSources added
      refine ⟨final, fun member => (whole member).trans ?_⟩
      rw [same, Finset.mem_union, or_assoc]
      simp only [List.mem_cons, Option.some.injEq, or_and_right, exists_or, exists_eq_left]
      exact Iff.rfl

/-- The members of any of the sets. -/
theorem unionSet_members {sets : List (Option (Dict Unit))}
    (sources : ∀ set, some set ∈ sets → set.WellFormed) :
    (unionSet sets).WellFormed ∧ ∀ member, member ∈ members (unionSet sets) ↔
      ∃ set, some set ∈ sets ∧ member ∈ members set := by
  obtain ⟨final, whole⟩ := addAll_members sources (dictCreate_wellFormed newDictPow_le)
  refine ⟨final, fun member => (whole member).trans (or_iff_right ?_)⟩
  rw [members_create]
  exact Finset.notMem_empty member

/-- The members of the copy that the other set has as well. -/
theorem keep_members (wellFormed : newSet.WellFormed) (source : other.WellFormed) :
    (iterSet newSet (dictInterCallback other) newSet).WellFormed ∧
      ∀ member, member ∈ members (iterSet newSet (dictInterCallback other) newSet) ↔
        member ∈ members newSet ∧ member ∈ members other := by
  have short := short_entries wellFormed.toPlaced
  rw [iterSet_eq]
  obtain ⟨final, same⟩ := @foldl_remove _ (dictInterCallback other)
    (fun entry => dictLookUp other entry.key ≠ none) _ (fun newSet entry => by
      cases found : dictLookUp other entry.key with
      | none => simp only [dictInterCallback, found, ne_eq, not_true_eq_false, if_false]
      | some val =>
        simp only [dictInterCallback, found, ne_eq, reduceCtorEq, not_false_eq_true, if_true])
    _ short wellFormed
  refine ⟨final, fun member => (same member).trans (and_congr_right fun inside => ?_)⟩
  constructor
  · intro kept
    obtain ⟨entry, inEntries, rfl⟩ := mem_members.mp inside
    exact (lookUp_member_iff source.toPlaced (short entry inEntries)).mp (kept entry inEntries rfl)
  · rintro held entry inEntries rfl
    exact (lookUp_member_iff source.toPlaced (short entry inEntries)).mpr held

/-- The members of all of the sets. The copy is that of the smallest one, whose members are tested
against it as well. -/
theorem interSet_members {first : Dict Unit} {rest : List (Dict Unit)}
    (sources : ∀ set ∈ first :: rest, set.WellFormed) :
    (interSet first rest).WellFormed ∧ ∀ member, member ∈ members (interSet first rest) ↔
      ∀ set ∈ first :: rest, member ∈ members set := by
  have least := smallest_mem first rest
  obtain ⟨copied, same⟩ := copy_members (sources _ least) newDictPow_le
  have kept {sets : List (Dict Unit)} {newSet : Dict Unit}
      (sources : ∀ set ∈ sets, set.WellFormed) (wellFormed : newSet.WellFormed) :
      let left := sets.foldl
        (fun newSet other => iterSet newSet (dictInterCallback other) newSet) newSet
      left.WellFormed ∧ ∀ member, member ∈ members left ↔
        member ∈ members newSet ∧ ∀ set ∈ sets, member ∈ members set := by
    induction sets generalizing newSet with
    | nil => exact ⟨wellFormed, fun member => (and_iff_left fun _ inside => by cases inside).symm⟩
    | cons set sets inductionHypothesis =>
      obtain ⟨left, tested⟩ := keep_members wellFormed (sources set List.mem_cons_self)
      obtain ⟨final, whole⟩ := inductionHypothesis
        (fun later member => sources later (List.mem_cons_of_mem _ member)) left
      refine ⟨final, fun member => (whole member).trans ?_⟩
      rw [tested, and_assoc, List.forall_mem_cons]
  obtain ⟨final, whole⟩ := kept sources copied
  refine ⟨final, fun member => (whole member).trans ?_⟩
  rw [same]
  exact and_iff_right_of_imp fun all => all _ least

/-! ### The three commands -/

variable {env : Env} {dict : Dict Obj}

theorem mem_membersAt {key : Bss} {member : Bytes} :
    member ∈ membersAt dict key ↔ ∃ set, setAt dict key = some set ∧ member ∈ members set := by
  rw [membersAt]
  cases setAt dict key with
  | none => exact iff_of_false (Finset.notMem_empty member) (by rintro ⟨set, ⟨⟩, -⟩)
  | some set => exact ⟨fun inside => ⟨set, rfl, inside⟩, by rintro ⟨own, ⟨⟩, inside⟩; exact inside⟩

theorem wellFormed_of_holds {keys : List Bss} (holds : ∀ key ∈ keys, HoldsSet dict key)
    {set : Dict Unit} (member : some set ∈ keys.map (setAt dict)) : set.WellFormed := by
  obtain ⟨key, inKeys, found⟩ := List.mem_map.mp member
  exact (holds key inKeys).wellFormed found

theorem sdiffCommand_lists {first second : Bss} {rest : List Bss}
    (holds : ∀ key ∈ first :: second :: rest, HoldsSet dict key) :
    ∃ set, ListsSet env dict (sdiffCommand env dict (first :: second :: rest)) set ∧
      ∀ member, member ∈ set ↔ member ∈ membersAt dict first ∧
        ∀ key ∈ second :: rest, member ∉ membersAt dict key := by
  have others : ∀ set, some set ∈ (second :: rest).map (setAt dict) → set.WellFormed :=
    fun set member => wellFormed_of_holds
      (fun key inside => holds key (List.mem_cons_of_mem _ inside)) member
  have all : setsAt dict (first :: second :: rest) =
      some (setAt dict first :: (second :: rest).map (setAt dict)) := setsAt_eq holds
  cases found : setAt dict first with
  | none =>
    refine ⟨∅, ?_, fun member => iff_of_false (Finset.notMem_empty member) fun inside => ?_⟩
    · simp only [sdiffCommand, all, found]
      exact listsSet_empty env dict
    · rw [membersAt, found] at inside
      exact Finset.notMem_empty member inside.1
  | some set =>
    have source := (holds first List.mem_cons_self).wellFormed found
    obtain ⟨final, whole⟩ := diffSet_members source others
    refine ⟨members (diffSet set ((second :: rest).map (setAt dict))), ?_, fun member => ?_⟩
    · simp only [sdiffCommand, all, found, membersReply]
      exact listsSet_copy env dict final.toPlaced
    · rw [whole, membersAt, found]
      refine and_congr_right fun _ => ?_
      constructor
      · intro none key inKeys inside
        obtain ⟨own, present, held⟩ := mem_membersAt.mp inside
        exact none own (List.mem_map.mpr ⟨key, inKeys, present⟩) held
      · intro none own inSets held
        obtain ⟨key, inKeys, present⟩ := List.mem_map.mp inSets
        exact none key inKeys (mem_membersAt.mpr ⟨own, present, held⟩)

theorem sunionCommand_lists {first second : Bss} {rest : List Bss}
    (holds : ∀ key ∈ first :: second :: rest, HoldsSet dict key) :
    ∃ set, ListsSet env dict (sunionCommand env dict (first :: second :: rest)) set ∧
      ∀ member, member ∈ set ↔ ∃ key ∈ first :: second :: rest, member ∈ membersAt dict key := by
  obtain ⟨final, whole⟩ := unionSet_members fun set member => wellFormed_of_holds holds member
  refine ⟨members (unionSet ((first :: second :: rest).map (setAt dict))), ?_, fun member => ?_⟩
  · simp only [sunionCommand, setsAt_eq holds, membersReply]
    exact listsSet_copy env dict final.toPlaced
  · rw [whole]
    constructor
    · rintro ⟨own, inSets, held⟩
      obtain ⟨key, inKeys, present⟩ := List.mem_map.mp inSets
      exact ⟨key, inKeys, mem_membersAt.mpr ⟨own, present, held⟩⟩
    · rintro ⟨key, inKeys, inside⟩
      obtain ⟨own, present, held⟩ := mem_membersAt.mp inside
      exact ⟨own, List.mem_map.mpr ⟨key, inKeys, present⟩, held⟩

/-- Either some key has no set, or every key has one. -/
theorem mapM_setAt (dict : Dict Obj) (keys : List Bss) :
    ((∃ key ∈ keys, setAt dict key = none) ∧ (keys.map (setAt dict)).mapM id = none) ∨
      ∃ sets, keys.map (setAt dict) = sets.map some ∧
        (keys.map (setAt dict)).mapM id = some sets := by
  induction keys with
  | nil => exact Or.inr ⟨[], rfl, rfl⟩
  | cons key rest inductionHypothesis =>
    rw [List.map_cons, List.mapM_cons]
    cases found : setAt dict key with
    | none => exact Or.inl ⟨⟨key, List.mem_cons_self, found⟩, rfl⟩
    | some set =>
      rcases inductionHypothesis with ⟨⟨other, member, absent⟩, missing⟩ | ⟨sets, same, all⟩
      · rw [missing]
        exact Or.inl ⟨⟨other, List.mem_cons_of_mem _ member, absent⟩, rfl⟩
      · rw [all, same]
        exact Or.inr ⟨set :: sets, rfl, rfl⟩

theorem sinterCommand_lists {first second : Bss} {rest : List Bss}
    (holds : ∀ key ∈ first :: second :: rest, HoldsSet dict key) :
    ∃ set, ListsSet env dict (sinterCommand env dict (first :: second :: rest)) set ∧
      ∀ member, member ∈ set ↔ ∀ key ∈ first :: second :: rest, member ∈ membersAt dict key := by
  rcases mapM_setAt dict (first :: second :: rest) with ⟨⟨key, inKeys, absent⟩, missing⟩ |
    ⟨sets, same, all⟩
  · refine ⟨∅, ?_, fun member => iff_of_false (Finset.notMem_empty member) fun inside => ?_⟩
    · simp only [sinterCommand, setsAt_eq holds, missing]
      exact listsSet_empty env dict
    · have held := inside key inKeys
      rw [membersAt, absent] at held
      exact Finset.notMem_empty member held
  · cases sets with
    | nil => cases same
    | cons least others =>
      have sources : ∀ set ∈ least :: others, set.WellFormed := fun set member =>
        wellFormed_of_holds holds (same ▸ List.mem_map.mpr ⟨set, member, rfl⟩)
      obtain ⟨final, whole⟩ := interSet_members sources
      refine ⟨members (interSet least others), ?_, fun member => ?_⟩
      · simp only [sinterCommand, setsAt_eq holds, all, membersReply]
        exact listsSet_copy env dict final.toPlaced
      · rw [whole]
        constructor
        · intro inside key inKeys
          have found : setAt dict key ∈ (least :: others).map some :=
            same ▸ List.mem_map.mpr ⟨key, inKeys, rfl⟩
          obtain ⟨set, member', equal⟩ := List.mem_map.mp found
          exact mem_membersAt.mpr ⟨set, equal.symm, inside set member'⟩
        · intro inside set member'
          have found : some set ∈ (first :: second :: rest).map (setAt dict) :=
            same ▸ List.mem_map.mpr ⟨set, member', rfl⟩
          obtain ⟨key, inKeys, equal⟩ := List.mem_map.mp found
          obtain ⟨own, present, held⟩ := mem_membersAt.mp (inside key inKeys)
          rw [equal] at present
          cases present
          exact held

/-- A list that is a permutation of two and more elements has that form as well. -/
theorem two_of_perm {first second : Bss} {rest args : List Bss}
    (same : args.Perm (first :: second :: rest)) :
    ∃ first' second' rest', args = first' :: second' :: rest' := by
  have length := same.length_eq
  match args with
  | [] => cases length
  | [_] => cases length
  | first' :: second' :: rest' => exact ⟨first', second', rest', rfl⟩

/-- `SINTER`, `SUNION` and `SDIFF` list the intersection, the union and the difference of the sets
under their keys. The first two do so for any order of the keys. The key space is as before, and a
copy that is filled with one of its sets, whatever the power of the copy, finds no key there. -/
theorem set_algebra (env : Env) (dict : Dict Obj) (first second : Bss) (rest : List Bss)
    (holds : ∀ key ∈ first :: second :: rest, HoldsSet dict key) :
    (∃ inter : Finset Bytes,
      (∀ member, member ∈ inter ↔
        ∀ key ∈ first :: second :: rest, member ∈ membersAt dict key) ∧
      ∀ args, args.Perm (first :: second :: rest) →
        ListsSet env dict (sinterCommand env dict args) inter) ∧
    (∃ union : Finset Bytes,
      (∀ member, member ∈ union ↔
        ∃ key ∈ first :: second :: rest, member ∈ membersAt dict key) ∧
      ∀ args, args.Perm (first :: second :: rest) →
        ListsSet env dict (sunionCommand env dict args) union) ∧
    (∃ diff : Finset Bytes,
      (∀ member, member ∈ diff ↔ member ∈ membersAt dict first ∧
        ∀ key ∈ second :: rest, member ∉ membersAt dict key) ∧
      ListsSet env dict (sdiffCommand env dict (first :: second :: rest)) diff) ∧
    ∀ key ∈ first :: second :: rest, ∀ set, setAt dict key = some set →
      ∀ power ≤ 31, CopiesFresh set power := by
  refine ⟨?_, ?_, ?_, fun key inKeys set found power small =>
    copiesFresh ((holds key inKeys).wellFormed found) small⟩
  · obtain ⟨inter, -, whole⟩ := @sinterCommand_lists env _ _ _ _ holds
    refine ⟨inter, whole, fun args same => ?_⟩
    obtain ⟨first', second', rest', rfl⟩ := two_of_perm same
    obtain ⟨own, listed, inOwn⟩ := @sinterCommand_lists env _ _ _ _ fun key member =>
      holds key (same.mem_iff.mp member)
    have equal : own = inter := by
      ext member
      rw [inOwn, whole]
      exact forall_congr' fun key => by rw [same.mem_iff]
    exact equal ▸ listed
  · obtain ⟨union, -, whole⟩ := @sunionCommand_lists env _ _ _ _ holds
    refine ⟨union, whole, fun args same => ?_⟩
    obtain ⟨first', second', rest', rfl⟩ := two_of_perm same
    obtain ⟨own, listed, inOwn⟩ := @sunionCommand_lists env _ _ _ _ fun key member =>
      holds key (same.mem_iff.mp member)
    have equal : own = union := by
      ext member
      rw [inOwn, whole]
      exact exists_congr fun key => by rw [same.mem_iff]
    exact equal ▸ listed
  · obtain ⟨diff, listed, whole⟩ := @sdiffCommand_lists env _ _ _ _ holds
    exact ⟨diff, whole, listed⟩

/-- A set of one member. -/
def oneMember : Dict Unit := dictAdd (dictCreate newDictPow) (textArg 1 "x") ()

/-- A key space with one set. -/
def oneSet : Dict Obj := dictAdd (dictCreate initDictSize) (textArg 2 "s") (.set oneMember)

theorem oneMember_wellFormed : oneMember.WellFormed :=
  dictAdd_wellFormed (dictCreate_wellFormed (by decide)) (textArg_arg 1 (by decide)).short ()

theorem oneSet_placed : oneSet.Placed :=
  dictAdd_placed (dictCreate_wellFormed (by decide)).toPlaced (textArg_arg 2 (by decide)).short _

theorem oneSet_holds : HoldsSet oneSet (textArg 3 "s") :=
  Or.inr ⟨oneMember, rfl, oneMember_wellFormed⟩

/-- The commands on a set, an absent key, and the set once more. -/
theorem set_algebra_oneSet :
    (∀ key ∈ [textArg 3 "s", textArg 4 "t", textArg 5 "s"], HoldsSet oneSet key) ∧
      ∃ diff : Finset Bytes,
        (∀ member, member ∈ diff ↔ member ∈ membersAt oneSet (textArg 3 "s") ∧
          ∀ key ∈ [textArg 4 "t", textArg 5 "s"], member ∉ membersAt oneSet key) ∧
        ListsSet Env.plain oneSet
          (sdiffCommand Env.plain oneSet [textArg 3 "s", textArg 4 "t", textArg 5 "s"]) diff := by
  have holds : ∀ key ∈ [textArg 3 "s", textArg 4 "t", textArg 5 "s"], HoldsSet oneSet key := by
    simp only [List.forall_mem_cons]
    refine ⟨oneSet_holds, Or.inl rfl, Or.inr ⟨oneMember, rfl, oneMember_wellFormed⟩,
      fun key inside => ?_⟩
    cases inside
  exact ⟨holds, (set_algebra Env.plain oneSet _ _ _ holds).2.2.1⟩

end PseudoRedis
