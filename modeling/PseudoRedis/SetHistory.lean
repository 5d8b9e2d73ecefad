/-
This file follows the sets of the server through any history of `SADD`, `SREM` and `DEL`.
The reference maps every key to a finite set, and the empty set stands for an absent key.
A command acts on the reference as its name says and replies a cardinality of it, and the
commands that read a set answer from the reference.

The counter of a set is a `size_t`, which `SREM` compares with zero. It cannot have come
round, because the members are allocations at different addresses of 64 bits.
-/

import PseudoRedis.Members
import PseudoRedis.NonEmpty
import Mathlib.Algebra.BigOperators.Group.List.Basic

namespace PseudoRedis

/-! ### Members added and deleted -/

/-- The contents of arguments. -/
def contents (args : List Bss) : Finset Bytes := (args.map Bss.content).toFinset

@[simp]
theorem contents_cons (arg : Bss) (rest : List Bss) :
    contents (arg :: rest) = insert arg.content (contents rest) := by
  rw [contents, List.map_cons, List.toFinset_cons]
  rfl

@[simp]
theorem contents_nil : contents [] = ∅ := rfl

theorem addMembers_members {set : Dict Unit} (wellFormed : set.WellFormed) {args : List Bss}
    (short : ∀ arg ∈ args, arg.Short) :
    members (addMembers set args).1 = members set ∪ contents args ∧
      (addMembers set args).2 = (contents args \ members set).card := by
  induction args generalizing set with
  | nil =>
    rw [contents_nil, Finset.union_empty, Finset.empty_sdiff]
    exact ⟨rfl, rfl⟩
  | cons member rest inductionHypothesis =>
    have memberShort := short member List.mem_cons_self
    have restShort : ∀ arg ∈ rest, arg.Short := fun arg inRest =>
      short arg (List.mem_cons_of_mem _ inRest)
    rw [addMembers, contents_cons]
    cases answer : dictLookUp set member with
    | none =>
      have new := (lookUp_member_none wellFormed.toPlaced memberShort).mp answer
      obtain ⟨whole, count⟩ :=
        inductionHypothesis (dictAdd_wellFormed wellFormed memberShort ()) restShort
      rw [members_dictAdd wellFormed.toPlaced memberShort ()] at whole count
      constructor
      · show members (addMembers (dictAdd set member ()) rest).1 = _
        rw [whole, Finset.insert_union, Finset.union_insert]
      · show (addMembers (dictAdd set member ()) rest).2 + 1 = _
        rw [count, Finset.insert_sdiff_of_notMem _ new, Finset.sdiff_insert,
          ← Finset.erase_insert_eq_erase, Finset.card_erase_add_one (Finset.mem_insert_self _ _)]
    | some val =>
      have known : member.content ∈ members set := by
        rw [← lookUp_member_iff wellFormed.toPlaced memberShort, answer]
        exact Option.some_ne_none _
      obtain ⟨whole, count⟩ := inductionHypothesis wellFormed restShort
      constructor
      · show members (addMembers set rest).1 = _
        rw [whole, Finset.union_insert, Finset.insert_eq_of_mem (Finset.mem_union_left _ known)]
      · show (addMembers set rest).2 = _
        rw [count, Finset.insert_sdiff_of_mem _ known]

section Deletion

variable {V : Type} {dict : Dict V}

theorem delKeys_cons (sized : dict.Sized) (key : Bss) (rest : List Bss) :
    delKeys dict (key :: rest) = ((delKeys (dictRmNf dict key).1 rest).1,
      if dictLookUp dict key = none then (delKeys (dictRmNf dict key).1 rest).2
      else (delKeys (dictRmNf dict key).1 rest).2 + 1) := by
  rw [delKeys, dictRm]
  cases answer : dictLookUp dict key with
  | none =>
    rw [(absent_of_lookUp sized answer).rmNf]
    rfl
  | some val =>
    obtain ⟨entry, others, -, found⟩ := found_of_lookUp sized answer
    have out := found.rmNf.1
    cases taken : dictRmNf dict key with
    | mk left removed =>
      rw [taken] at out
      cases out
      rw [if_neg (Option.some_ne_none val)]
      rfl

/-- Deleted keys are gone, and the other ones keep their values. -/
theorem lookUp_delKeys (placed : dict.Placed) {keys : List Bss} (short : ∀ key ∈ keys, key.Short)
    {other : Bss} (otherShort : other.Short) :
    dictLookUp (delKeys dict keys).1 other =
      if other.content ∈ contents keys then none else dictLookUp dict other := by
  induction keys generalizing dict with
  | nil => exact (if_neg (Finset.notMem_empty _)).symm
  | cons key rest inductionHypothesis =>
    have keyShort := short key List.mem_cons_self
    rw [delKeys_cons placed.sized, inductionHypothesis (dictRmNf_placed placed key)
      fun later inRest => short later (List.mem_cons_of_mem _ inRest)]
    rw [contents_cons]
    by_cases later : other.content ∈ contents rest
    · rw [if_pos later, if_pos (Finset.mem_insert_of_mem later)]
    · rw [if_neg later]
      by_cases same : other.content = key.content
      · rw [if_pos (Finset.mem_insert.mpr (Or.inl same)),
          lookUp_of_content (dictRmNf_placed placed key) keyShort otherShort same,
          lookUp_dictRmNf_self placed keyShort]
      · rw [lookUp_dictRmNf_of_ne placed keyShort otherShort same, if_neg]
        exact fun inside => (Finset.mem_insert.mp inside).elim same later

theorem delKeys_members (placed : dict.Placed) {keys : List Bss}
    (short : ∀ key ∈ keys, key.Short) :
    members (delKeys dict keys).1 = members dict \ contents keys ∧
      (delKeys dict keys).2 = (contents keys ∩ members dict).card := by
  induction keys generalizing dict with
  | nil =>
    rw [contents_nil, Finset.sdiff_empty, Finset.empty_inter]
    exact ⟨rfl, rfl⟩
  | cons key rest inductionHypothesis =>
    have keyShort := short key List.mem_cons_self
    obtain ⟨left, count⟩ := inductionHypothesis (dictRmNf_placed placed key)
      fun later inRest => short later (List.mem_cons_of_mem _ inRest)
    rw [members_dictRmNf placed keyShort] at left count
    rw [delKeys_cons placed.sized, contents_cons]
    constructor
    · rw [left, Finset.sdiff_insert, Finset.erase_sdiff_comm]
    · by_cases absent : dictLookUp dict key = none
      · have new := (lookUp_member_none placed keyShort).mp absent
        rw [if_pos absent, count, Finset.insert_inter_of_notMem new, Finset.erase_eq_of_notMem new]
      · have known := (lookUp_member_iff placed keyShort).mp absent
        rw [if_neg absent, count, Finset.insert_inter_of_mem known, Finset.inter_erase,
          ← Finset.erase_insert_eq_erase, Finset.card_erase_add_one (Finset.mem_insert_self _ _)]

end Deletion

/-! ### The reference -/

inductive SetCommand where
  | sadd
  | srem
  | del

/-- A finite set for every key, the empty one for a key that is absent. -/
abbrev Reference := Bytes → Finset Bytes

/-- The reference after a command, and the number it replies. A command with too few arguments has
neither. -/
def SetCommand.reference (ref : Reference) : SetCommand → List Bytes → Option (Reference × Nat)
  | .sadd, key :: first :: rest =>
      some (Function.update ref key (ref key ∪ (first :: rest).toFinset),
        ((first :: rest).toFinset \ ref key).card)
  | .srem, key :: first :: rest =>
      some (Function.update ref key (ref key \ (first :: rest).toFinset),
        ((first :: rest).toFinset ∩ ref key).card)
  | .del, first :: rest =>
      some (fun key => if key ∈ (first :: rest).toFinset then ∅ else ref key,
        ((first :: rest).toFinset.filter fun key => ref key ≠ ∅).card)
  | _, _ => none

def SetCommand.run (dict : Dict Obj) (args : List Bss) : SetCommand → Run Obj
  | .sadd => saddCommand dict args
  | .srem => sremCommand dict args
  | .del => delCommand dict args

/-- Arguments as the parser makes them: each is an allocation of its own at an address of 64 bits,
and the key space holds none of them yet. -/
structure Allotted (dict : Dict Obj) (args : List Bss) : Prop where
  short : ∀ arg ∈ args, arg.Short
  addressed : ∀ arg ∈ args, arg.id < 2 ^ 64
  once : (args.map Bss.id).Nodup
  unheld : ∀ arg ∈ args, arg.id ∉ dict.ids

/-- The key spaces and references that commands lead to. -/
inductive History : Dict Obj → Reference → Prop
  | start : History (dictCreate initDictSize) fun _ => ∅
  | step {dict : Dict Obj} {ref : Reference} {sh : Shared} {result : Result Obj}
      (command : SetCommand) (args : List Bss) (before : History dict ref)
      (allotted : Allotted dict args) (ran : command.run dict args sh = .ok result) :
      History result.dict
        (((command.reference ref (args.map Bss.content)).map Prod.fst).getD ref)

/-! ### Key spaces along a history -/

section Along

variable {dict dict' : Dict Obj} {key : Bss}

/-- Arguments are different allocations, so a change that gains them holds nothing twice. -/
theorem Allotted.gain {args : List Bss} (allotted : Allotted dict args) (once : dict.ids.Nodup)
    (addressed : ∀ id ∈ dict.ids, id < 2 ^ 64) {gain : List Nat}
    (sub : gain.Sublist (args.map Bss.id)) (change : Change False dict gain dict') :
    dict'.ids.Nodup ∧ ∀ id ∈ dict'.ids, id < 2 ^ 64 := by
  have given : ∀ id ∈ gain, id ∉ dict.ids ∧ id < 2 ^ 64 := by
    intro id member
    obtain ⟨arg, inArgs, rfl⟩ := List.mem_map.mp (sub.subset member)
    exact ⟨allotted.unheld arg inArgs, allotted.addressed arg inArgs⟩
  have gained := sub.nodup allotted.once
  refine ⟨nodup_of_conserve change.conserve once gained fun id new => (given id new).1,
    fun id member => ?_⟩
  rcases change.mem member with old | new
  · exact addressed id old
  · exact (given id new).2

/-- The keys of an inner dictionary and its own key are different allocations, so its count does not
come round. -/
theorem length_inner_lt {W : Type} [Store W] {kind : Kind W} (lawful : kind.Lawful)
    (sized : dict.Sized) (once : dict.ids.Nodup) (addressed : ∀ id ∈ dict.ids, id < 2 ^ 64)
    {inner : Dict W} (answer : dictLookUp dict key = some (kind.wrap inner)) :
    inner.entries.length < 2 ^ 64 := by
  obtain ⟨entry, others, same, found⟩ := found_of_lookUp sized answer
  have ids : Store.ids entry.val = inner.ids := by rw [same, lawful.ids]
  have keys : inner.entries.length ≤ inner.ids.length := by
    rw [Dict.ids, Dict.idsWith, List.length_flatMap, ← List.length_map]
    refine List.length_le_sum_of_one_le _ fun size member => ?_
    obtain ⟨held, -, rfl⟩ := List.mem_map.mp member
    exact Nat.succ_pos _
  have nodup : (entry.key.id :: Store.ids entry.val).Nodup := by
    refine List.nodup_iff_count_le_one.mpr fun id => ?_
    have whole := List.nodup_iff_count_le_one.mp once id
    rw [count_ids_cons found.entries] at whole
    exact Nat.le_trans (Nat.le_add_right _ _) whole
  have inside : ∀ id ∈ entry.key.id :: Store.ids entry.val, 0 ≤ id ∧ id < 2 ^ 64 := by
    intro id member
    refine ⟨Nat.zero_le id, addressed id (mem_ids.mpr ⟨entry, ?_, List.mem_cons.mp member⟩)⟩
    exact found.entries.mem_iff.mpr List.mem_cons_self
  have few := length_le_of_addressed nodup inside
  rw [List.length_cons, ids] at few
  exact Nat.lt_of_le_of_lt keys few

/-- The empty key space holds nothing. -/
theorem ids_fresh : (dictCreate initDictSize : Dict Obj).ids.Nodup ∧
    ∀ id ∈ (dictCreate initDictSize : Dict Obj).ids, id < 2 ^ 64 := by
  simp

/-- A key space that agrees with a reference does so after a change of one key. -/
theorem agrees_update {Value : Type} {agrees : Value → Option Obj → Prop} {ref : Bytes → Value}
    (before : ∀ key : Bss, key.Short → agrees (ref key.content) (dictLookUp dict key))
    (short : key.Short) (placed : dict'.Placed) {value : Value}
    (own : agrees value (dictLookUp dict' key))
    (others : ∀ other : Bss, other.Short → other.content ≠ key.content →
      dictLookUp dict' other = dictLookUp dict other) (other : Bss) (otherShort : other.Short) :
    agrees (Function.update ref key.content value other.content) (dictLookUp dict' other) := by
  by_cases same : other.content = key.content
  · rw [same, Function.update_self, lookUp_of_content placed short otherShort same]
    exact own
  · rw [Function.update_of_ne same, others other otherShort same]
    exact before other otherShort

/-- The keys `DEL` counts are those whose reference is not the empty one. -/
theorem contents_present {Value : Type} [DecidableEq Value] {empty : Value} {ref : Bytes → Value}
    (placed : dict.Placed)
    (absent : ∀ key : Bss, key.Short → (dictLookUp dict key = none ↔ ref key.content = empty))
    {keys : List Bss} (short : ∀ key ∈ keys, key.Short) :
    (contents keys).filter (fun key => ref key ≠ empty) = contents keys ∩ members dict := by
  ext content
  rw [Finset.mem_filter, Finset.mem_inter]
  refine and_congr_right fun member => ?_
  obtain ⟨arg, inArgs, rfl⟩ := List.mem_map.mp (List.mem_toFinset.mp member)
  rw [← lookUp_member_iff placed (short arg inArgs), Ne, Ne, absent arg (short arg inArgs)]

/-- `DEL` counts those keys, and leaves the other ones as they are. -/
theorem delCommand_present {Value : Type} [DecidableEq Value] {empty : Value}
    {agrees : Value → Option Obj → Prop} (nothing : agrees empty none) {ref : Bytes → Value}
    (placed : dict.Placed)
    (absent : ∀ key : Bss, key.Short → (dictLookUp dict key = none ↔ ref key.content = empty))
    (before : ∀ key : Bss, key.Short → agrees (ref key.content) (dictLookUp dict key))
    {first : Bss} {rest : List Bss} (short : ∀ key ∈ first :: rest, key.Short) :
    delCommand dict (first :: rest) = intReply (delKeys dict (first :: rest)).1
        ((contents (first :: rest)).filter fun key => ref key ≠ empty).card ∧
      ∀ other : Bss, other.Short →
        agrees (if other.content ∈ contents (first :: rest) then empty else ref other.content)
          (dictLookUp (delKeys dict (first :: rest)).1 other) := by
  refine ⟨?_, fun other otherShort => ?_⟩
  · rw [contents_present placed absent short, ← (delKeys_members placed short).2]
    rfl
  · rw [lookUp_delKeys placed short otherShort]
    by_cases inside : other.content ∈ contents (first :: rest)
    · rw [if_pos inside, if_pos inside]
      exact nothing
    · rw [if_neg inside, if_neg inside]
      exact before other otherShort

/-- Deleting members of an inner dictionary, which takes the key along if none is left. -/
theorem hdelsremCommand_present {W : Type} {kind : Kind W} {inner : Dict W}
    (unwrapped : kind.unwrap (kind.wrap inner) = some inner) {first : Bss} {rest : List Bss}
    (sized : dict.Sized) (answer : dictLookUp dict key = some (kind.wrap inner)) :
    hdelsremCommand kind dict (key :: first :: rest) =
      intReply (if toSize (delKeys inner (first :: rest)).1.entryNum = 0 then (dictRmNf dict key).1
        else putBack kind dict key (delKeys inner (first :: rest)).1)
        (delKeys inner (first :: rest)).2 := by
  have removed : (dictRm (putBack kind dict key (delKeys inner (first :: rest)).1) key).1 =
      (dictRmNf dict key).1 := by
    rw [dictRm_fst, putBack, dictRmNf_dictSetVal sized answer]
  simp only [hdelsremCommand, answer, unwrapped]
  rw [← removed]
  rfl

/-- Then the key holds what is left of the inner dictionary, or is gone, and the other keys are as
before. -/
theorem hdelsremCommand_change {W : Type} [Store W] {kind : Kind W} (lawful : kind.Lawful)
    {inner : Dict W} (unwrapped : kind.unwrap (kind.wrap inner) = some inner)
    (sound : Sound False dict) (once : dict.ids.Nodup) (addressed : ∀ id ∈ dict.ids, id < 2 ^ 64)
    (keyShort : key.Short) (answer : dictLookUp dict key = some (kind.wrap inner))
    (innerSound : Sound False inner) {first : Bss} {rest : List Bss}
    (short : ∀ arg ∈ first :: rest, arg.Short) :
    ∃ dict', hdelsremCommand kind dict (key :: first :: rest) =
        intReply dict' (delKeys inner (first :: rest)).2 ∧
      Change False dict [] dict' ∧
      (dictLookUp dict' key = if (delKeys inner (first :: rest)).1.entries = [] then none
        else some (kind.wrap (delKeys inner (first :: rest)).1)) ∧
      ∀ other : Bss, other.Short → other.content ≠ key.content →
        dictLookUp dict' other = dictLookUp dict other := by
  have placed := sound.placed
  have deleted := delKeys_change innerSound (first :: rest)
  have fewer : (delKeys inner (first :: rest)).1.entries.length ≤ inner.entries.length := by
    rw [← card_members deleted.sound.placed, ← card_members innerSound.placed,
      (delKeys_members innerSound.placed short).1]
    exact Finset.card_le_card Finset.sdiff_subset
  have few : (delKeys inner (first :: rest)).1.entries.length < 2 ^ 64 :=
    Nat.lt_of_le_of_lt fewer (length_inner_lt lawful placed.sized once addressed answer)
  have zero : toSize (delKeys inner (first :: rest)).1.entryNum = 0 ↔
      (delKeys inner (first :: rest)).1.entries = [] := by
    rw [deleted.sound.count lawful.counted, toSize_natCast few, List.length_eq_zero_iff]
  refine ⟨_, hdelsremCommand_present unwrapped placed.sized answer, ?_⟩
  split
  · rename_i none
    rw [if_pos (zero.mp none)]
    exact ⟨Change.rmNf sound key, lookUp_dictRmNf_self placed keyShort,
      fun other otherShort different => lookUp_dictRmNf_of_ne placed keyShort otherShort different⟩
  · rename_i some
    rw [if_neg (zero.not.mp some)]
    exact ⟨Change.inPlace lawful sound answer deleted (Or.inr (zero.not.mp some)),
      lookUp_dictSetVal_self placed.sized answer _, fun other otherShort different =>
        lookUp_dictSetVal_of_ne placed keyShort otherShort _ different⟩

end Along

/-! ### Key spaces that stand for a reference -/

/-- What a look-up answers for a key with this reference set. -/
def Agrees (members' : Finset Bytes) : Option Obj → Prop
  | none => members' = ∅
  | some (.set set) => members set = members'
  | some _ => False

structure Stands (dict : Dict Obj) (ref : Reference) : Prop where
  sound : Sound False dict
  once : dict.ids.Nodup
  addressed : ∀ id ∈ dict.ids, id < 2 ^ 64
  agrees : ∀ key : Bss, key.Short → Agrees (ref key.content) (dictLookUp dict key)

variable {env : Env} {dict dict' : Dict Obj} {ref : Reference} {key : Bss}

theorem stands_create : Stands (dictCreate initDictSize) fun _ => ∅ :=
  ⟨sound_create False (by decide), ids_fresh.1, ids_fresh.2, fun key _ => rfl⟩

/-- The two things a key can be. -/
theorem Stands.cases (stands : Stands dict ref) (short : key.Short) :
    (dictLookUp dict key = none ∧ ref key.content = ∅) ∨
      ∃ set, dictLookUp dict key = some (.set set) ∧ set.WellFormed ∧
        members set = ref key.content ∧ ref key.content ≠ ∅ := by
  have agrees := stands.agrees key short
  cases answer : dictLookUp dict key with
  | none =>
    rw [answer] at agrees
    exact Or.inl ⟨rfl, agrees⟩
  | some obj =>
    rw [answer] at agrees
    cases obj with
    | set set =>
      have ok : Obj.Ok False (.set set) := stands.sound.lookUp answer
      refine Or.inr ⟨set, rfl, ok.1, agrees, fun empty => ?_⟩
      have same : members set = ref key.content := agrees
      rw [empty, members_nonempty_iff] at same
      exact ok.2.resolve_left id same
    | string bss => exact agrees.elim
    | list entries => exact agrees.elim
    | hash inner => exact agrees.elim

/-- A key is absent exactly when its reference set is empty. -/
theorem Stands.absent_iff (stands : Stands dict ref) (short : key.Short) :
    dictLookUp dict key = none ↔ ref key.content = ∅ := by
  rcases stands.cases short with ⟨absent, empty⟩ | ⟨set, answer, -, -, some⟩
  · exact iff_of_true absent empty
  · rw [answer]
    exact iff_of_false (Option.some_ne_none _) some

/-- A change that gains arguments, and what it does to look-ups. -/
theorem Stands.change (stands : Stands dict ref) {args : List Bss} (allotted : Allotted dict args)
    {gain : List Nat} (sub : gain.Sublist (args.map Bss.id))
    (change : Change False dict gain dict') {ref' : Reference}
    (agrees : ∀ key : Bss, key.Short → Agrees (ref' key.content) (dictLookUp dict' key)) :
    Stands dict' ref' := by
  obtain ⟨once, addressed⟩ := allotted.gain stands.once stands.addressed sub change
  exact ⟨change.sound, once, addressed, agrees⟩

/-- A change of one key. -/
theorem Stands.update (stands : Stands dict ref) (short : key.Short) (placed : dict'.Placed)
    {members' : Finset Bytes} (own : Agrees members' (dictLookUp dict' key))
    (others : ∀ other : Bss, other.Short → other.content ≠ key.content →
      dictLookUp dict' other = dictLookUp dict other) (other : Bss) (otherShort : other.Short) :
    Agrees (Function.update ref key.content members' other.content) (dictLookUp dict' other) :=
  agrees_update stands.agrees short placed own others other otherShort

/-! ### The commands on the reference -/

theorem saddCommand_absent {first : Bss} {rest : List Bss} (sized : dict.Sized)
    (absent : dictLookUp dict key = none) :
    saddCommand dict (key :: first :: rest) =
      intReply (dictAdd dict key (.set (addMembers (dictCreate newDictPow) (first :: rest)).1))
        (addMembers (dictCreate newDictPow) (first :: rest)).2 := by
  have same : putBack Kind.set (dictAdd dict key (.set (dictCreate newDictPow))) key
      (addMembers (dictCreate newDictPow) (first :: rest)).1 =
      dictAdd dict key (.set (addMembers (dictCreate newDictPow) (first :: rest)).1) :=
    dictSetVal_dictAdd sized (fun _ => rfl) key _ _
  simp only [saddCommand, absent]
  rw [← same]

theorem saddCommand_present {set : Dict Unit} {first : Bss} {rest : List Bss}
    (answer : dictLookUp dict key = some (.set set)) :
    saddCommand dict (key :: first :: rest) =
      intReply (putBack Kind.set dict key (addMembers set (first :: rest)).1)
        (addMembers set (first :: rest)).2 := by
  simp only [saddCommand, answer]

theorem sremCommand_present {set : Dict Unit} {first : Bss} {rest : List Bss}
    (sized : dict.Sized) (answer : dictLookUp dict key = some (.set set)) :
    sremCommand dict (key :: first :: rest) =
      intReply (if toSize (delKeys set (first :: rest)).1.entryNum = 0 then (dictRmNf dict key).1
        else putBack Kind.set dict key (delKeys set (first :: rest)).1)
        (delKeys set (first :: rest)).2 :=
  hdelsremCommand_present rfl sized answer

theorem saddCommand_stands (stands : Stands dict ref) {first : Bss} {rest : List Bss}
    (allotted : Allotted dict (key :: first :: rest)) :
    ∃ dict', saddCommand dict (key :: first :: rest) =
        intReply dict' (contents (first :: rest) \ ref key.content).card ∧
      Stands dict' (Function.update ref key.content
        (ref key.content ∪ contents (first :: rest))) := by
  have keyShort := allotted.short key List.mem_cons_self
  have short : ∀ arg ∈ first :: rest, arg.Short := fun arg member =>
    allotted.short arg (List.mem_cons_of_mem _ member)
  have some : first :: rest ≠ [] := List.cons_ne_nil _ _
  rcases stands.cases keyShort with ⟨absent, empty⟩ | ⟨set, answer, wellFormed, same, -⟩
  · have created : Sound False (dictCreate newDictPow : Dict Unit) :=
      sound_create False newDictPow_le
    obtain ⟨whole, count⟩ := addMembers_members (sound_set_iff.mp created) short
    rw [members_create] at whole count
    have change := Change.created Kind.set_lawful stands.sound keyShort
      (addMembers_change created short)
      (Or.inr (entries_addMembers created.placed.sized (Or.inr some)))
    rw [putBack_add stands.sound] at change
    refine ⟨_, ?_, stands.change allotted (List.Sublist.refl _) change
      (stands.update keyShort change.sound.placed ?_ fun other otherShort different =>
        lookUp_dictAdd_of_ne stands.sound.placed keyShort otherShort _ different)⟩
    · rw [saddCommand_absent stands.sound.placed.sized absent, empty, ← count]
      rfl
    · rw [lookUp_dictAdd_self stands.sound.placed.sized, absent, empty]
      exact whole
  · obtain ⟨whole, count⟩ := addMembers_members wellFormed short
    rw [same] at whole count
    have change := Change.inPlace Kind.set_lawful stands.sound answer
      (addMembers_change (sound_set_iff.mpr wellFormed) short)
      (Or.inr (entries_addMembers wellFormed.sized (Or.inr some)))
    refine ⟨_, ?_, stands.change allotted (List.sublist_cons_self _ _) change
      (stands.update keyShort change.sound.placed ?_ fun other otherShort different =>
        lookUp_dictSetVal_of_ne stands.sound.placed keyShort otherShort _ different)⟩
    · rw [saddCommand_present answer, ← count]
    · rw [putBack, lookUp_dictSetVal_self stands.sound.placed.sized answer]
      exact whole

theorem sremCommand_stands (stands : Stands dict ref) {first : Bss} {rest : List Bss}
    (allotted : Allotted dict (key :: first :: rest)) :
    ∃ dict', sremCommand dict (key :: first :: rest) =
        intReply dict' (contents (first :: rest) ∩ ref key.content).card ∧
      Stands dict' (Function.update ref key.content
        (ref key.content \ contents (first :: rest))) := by
  have keyShort := allotted.short key List.mem_cons_self
  have short : ∀ arg ∈ first :: rest, arg.Short := fun arg member =>
    allotted.short arg (List.mem_cons_of_mem _ member)
  rcases stands.cases keyShort with ⟨absent, empty⟩ | ⟨set, answer, wellFormed, same, -⟩
  · refine ⟨dict, ?_, ?_⟩
    · simp only [sremCommand, hdelsremCommand, absent, empty, Finset.inter_empty]
      rfl
    · rw [empty, Finset.empty_sdiff, ← empty, Function.update_eq_self]
      exact stands
  · obtain ⟨whole, count⟩ := delKeys_members wellFormed.toPlaced short
    rw [same] at whole count
    obtain ⟨dict', ran, change, own, others⟩ := hdelsremCommand_change Kind.set_lawful rfl
      stands.sound stands.once stands.addressed keyShort answer (sound_set_iff.mpr wellFormed) short
    refine ⟨dict', ran.trans (by rw [count]), stands.change allotted (List.nil_sublist _) change
      (stands.update keyShort change.sound.placed ?_ others)⟩
    rw [own]
    split
    · rename_i none
      exact whole.symm.trans ((members_nonempty_iff _).mpr none)
    · exact whole

theorem delCommand_stands (stands : Stands dict ref) {first : Bss} {rest : List Bss}
    (allotted : Allotted dict (first :: rest)) :
    ∃ dict', delCommand dict (first :: rest) =
        intReply dict' ((contents (first :: rest)).filter fun key => ref key ≠ ∅).card ∧
      Stands dict' fun key => if key ∈ contents (first :: rest) then ∅ else ref key := by
  have nothing : Agrees ∅ none := rfl
  obtain ⟨ran, agrees⟩ := delCommand_present nothing stands.sound.placed
    (fun _ short => stands.absent_iff short) stands.agrees allotted.short
  exact ⟨_, ran, stands.change allotted (List.nil_sublist _) (delKeys_change stands.sound _) agrees⟩

theorem Stands.step (stands : Stands dict ref) (command : SetCommand) {args : List Bss}
    (allotted : Allotted dict args) :
    match command.reference ref (args.map Bss.content) with
    | some (ref', n) => ∃ dict', command.run dict args = intReply dict' n ∧ Stands dict' ref'
    | none => command.run dict args = failReply dict numArgs := by
  cases command with
  | sadd =>
    match args with
    | [] => rfl
    | [_] => rfl
    | key :: first :: rest => exact saddCommand_stands stands allotted
  | srem =>
    match args with
    | [] => rfl
    | [_] => rfl
    | key :: first :: rest => exact sremCommand_stands stands allotted
  | del =>
    match args with
    | [] => rfl
    | first :: rest => exact delCommand_stands stands allotted

theorem History.stands (history : History dict ref) : Stands dict ref := by
  induction history with
  | start => exact stands_create
  | step command args before allotted ran inductionHypothesis =>
    have step := inductionHypothesis.step command allotted
    split at step
    · rename_i ref' n reference
      obtain ⟨dict', same, stands⟩ := step
      rw [same] at ran
      cases ran
      rw [reference]
      exact stands
    · rename_i reference
      rw [step, failReply_eq] at ran
      cases ran
      rw [reference]
      exact inductionHypothesis

/-! ### Reading -/

theorem sismemberCommand_stands (stands : Stands dict ref) {member : Bss} (short : key.Short)
    (memberShort : member.Short) : sismemberCommand dict [key, member] =
      intReply dict (if member.content ∈ ref key.content then 1 else 0) := by
  rcases stands.cases short with ⟨absent, empty⟩ | ⟨set, answer, wellFormed, same, -⟩
  · rw [empty, if_neg (Finset.notMem_empty _)]
    simp only [sismemberCommand, absent]
    rfl
  · simp only [sismemberCommand, answer]
    rw [← same]
    cases found : dictLookUp set member with
    | none =>
      rw [if_neg ((lookUp_member_none wellFormed.toPlaced memberShort).mp found)]
      rfl
    | some val =>
      rw [if_pos ((lookUp_member_iff wellFormed.toPlaced memberShort).mp
        (found ▸ Option.some_ne_none val))]
      rfl

theorem scardCommand_stands (stands : Stands dict ref) (short : key.Short) :
    scardCommand dict [key] = intReply dict (ref key.content).card := by
  rcases stands.cases short with ⟨absent, empty⟩ | ⟨set, answer, wellFormed, same, -⟩
  · rw [empty]
    simp only [scardCommand, absent]
    rfl
  · simp only [scardCommand, answer]
    rw [← same, wellFormed.count, card_members wellFormed.toPlaced]

theorem smembersCommand_stands (env : Env) (stands : Stands dict ref) (short : key.Short) :
    ListsSet env dict (smembersCommand env dict [key]) (ref key.content) := by
  rcases stands.cases short with ⟨absent, empty⟩ | ⟨set, answer, wellFormed, same, -⟩
  · rw [empty]
    simp only [smembersCommand, hkeyssmembersCommand, absent]
    exact listsSet_empty env dict
  · rw [← same]
    simp only [smembersCommand, hkeyssmembersCommand, answer]
    exact listsSet_members env dict wellFormed.toPlaced

/-- After any history, every command replies the number its reference gives and leaves exactly the
keys whose reference sets are not empty, and the commands that read a set answer from the
reference. -/
theorem sets_follow_reference (history : History dict ref) :
    (∀ (command : SetCommand) (args : List Bss), Allotted dict args →
      match command.reference ref (args.map Bss.content) with
      | some (ref', n) => ∃ dict', command.run dict args = intReply dict' n ∧
          ∀ key : Bss, key.Short → (dictLookUp dict' key = none ↔ ref' key.content = ∅)
      | none => command.run dict args = failReply dict numArgs) ∧
    ∀ key : Bss, key.Short →
      (dictLookUp dict key = none ↔ ref key.content = ∅) ∧
      (∀ member : Bss, member.Short → sismemberCommand dict [key, member] =
        intReply dict (if member.content ∈ ref key.content then 1 else 0)) ∧
      scardCommand dict [key] = intReply dict (ref key.content).card ∧
      ∀ env, ListsSet env dict (smembersCommand env dict [key]) (ref key.content) := by
  have stands := history.stands
  constructor
  · intro command args allotted
    have step := stands.step command allotted
    split at step
    · obtain ⟨dict', same, after⟩ := step
      exact ⟨dict', same, fun key short => after.absent_iff short⟩
    · exact step
  · intro key short
    exact ⟨stands.absent_iff short,
      fun member memberShort => sismemberCommand_stands stands short memberShort,
      scardCommand_stands stands short, fun env => smembersCommand_stands env stands short⟩

/-- Texts as arguments, numbered by their allocations. -/
def textArgs (texts : List (Nat × String)) : List Bss :=
  texts.map fun text => textArg text.1 text.2

theorem textArgs_allotted {dict : Dict Obj} {texts : List (Nat × String)}
    (short : ∀ text ∈ texts, (bytes text.2).length ≤ maxRplySize)
    (addressed : ∀ text ∈ texts, text.1 < 2 ^ 64) (once : (texts.map Prod.fst).Nodup)
    (unheld : ∀ text ∈ texts, text.1 ∉ dict.ids) : Allotted dict (textArgs texts) := by
  have ids : (textArgs texts).map Bss.id = texts.map Prod.fst := by
    rw [textArgs, List.map_map]
    rfl
  refine ⟨?_, ?_, ids ▸ once, ?_⟩
  · exact List.forall_mem_map.mpr fun text member => (textArg_arg _ (short text member)).short
  · exact List.forall_mem_map.mpr addressed
  · exact List.forall_mem_map.mpr unheld

/-- The empty key space holds nothing yet. -/
theorem textArgs_allotted_first {texts : List (Nat × String)}
    (short : ∀ text ∈ texts, (bytes text.2).length ≤ maxRplySize)
    (addressed : ∀ text ∈ texts, text.1 < 2 ^ 64) (once : (texts.map Prod.fst).Nodup) :
    Allotted (dictCreate initDictSize) (textArgs texts) :=
  textArgs_allotted short addressed once (by simp)

/-- The key space after `SADD s x y z`. -/
def threeSet : Dict Obj :=
  dictAdd (dictCreate initDictSize) (textArg 1 "s")
    (.set (addMembers (dictCreate newDictPow) [textArg 2 "x", textArg 3 "y", textArg 4 "z"]).1)

theorem threeSet_ran :
    (textCall .sadd [(1, "s"), (2, "x"), (3, "y"), (4, "z")] (by decide)).run
      (dictCreate initDictSize) (Shared.holding []) =
        .ok ⟨threeSet, (createIntReply (Shared.holding []) 3).1, 0⟩ := by
  have sized : (dictCreate initDictSize : Dict Obj).Sized := dictCreate_sized (by decide)
  have ran := @saddCommand_absent _ (textArg 1 "s") (textArg 2 "x")
    [textArg 3 "y", textArg 4 "z"] sized rfl
  exact congrFun ran (Shared.holding [])

theorem threeSet_ids : ∀ id ∈ threeSet.ids, id < 5 := by
  intro id held
  rcases (Call.change _ (sound_create True (by decide)) threeSet_ran).mem held with old | new
  · simp at old
  · have spends : spent Env.plain (textArgs [(1, "s"), (2, "x"), (3, "y"), (4, "z")]) =
        [1, 2, 3, 4, 0, 1] := rfl
    have inside : id ∈ [1, 2, 3, 4, 0, 1] := spends ▸ new
    simp only [List.mem_cons, List.not_mem_nil, or_false] at inside
    omega

theorem threeSet_allotted {texts : List (Nat × String)}
    (short : ∀ text ∈ texts, (bytes text.2).length ≤ maxRplySize)
    (addressed : ∀ text ∈ texts, text.1 < 2 ^ 64) (once : (texts.map Prod.fst).Nodup)
    (later : ∀ text ∈ texts, 5 ≤ text.1) : Allotted threeSet (textArgs texts) :=
  textArgs_allotted short addressed once fun text member held =>
    Nat.not_lt.mpr (later text member) (threeSet_ids text.1 held)

/-- The reference after it. -/
def threeReference : Reference :=
  Function.update (fun _ => ∅) (bytes "s") (∅ ∪ {bytes "x", bytes "y", bytes "z"})

theorem threeSet_history : History threeSet threeReference := by
  have added : Allotted (dictCreate initDictSize)
      (textArgs [(1, "s"), (2, "x"), (3, "y"), (4, "z")]) :=
    textArgs_allotted_first (by decide) (by decide) (by decide)
  exact @History.step _ _ (Shared.holding []) _ .sadd _ .start added threeSet_ran

/-- After `SADD s x y z` and `SREM s y`. -/
theorem sets_follow_reference_two :
    ∃ dict ref, History dict ref ∧ ref (bytes "s") = {bytes "x", bytes "z"} ∧
      scardCommand dict [textArg 7 "s"] = intReply dict 2 ∧
      sismemberCommand dict [textArg 7 "s", textArg 8 "y"] = intReply dict 0 ∧
      ListsSet Env.plain dict (smembersCommand Env.plain dict [textArg 7 "s"])
        {bytes "x", bytes "z"} := by
  have removed : Allotted threeSet (textArgs [(5, "s"), (6, "y")]) :=
    threeSet_allotted (by decide) (by decide) (by decide) (by decide)
  obtain ⟨dict', ran, -⟩ := sremCommand_stands threeSet_history.stands removed
  have later := @History.step _ _ (Shared.holding []) _ .srem _ threeSet_history removed
    (congrFun ran (Shared.holding []))
  have key : (textArg 7 "s").Short := (textArg_arg 7 (by decide)).short
  have member : (textArg 8 "y").Short := (textArg_arg 8 (by decide)).short
  obtain ⟨-, ismember, card, lists⟩ := (sets_follow_reference later).2 _ key
  exact ⟨_, _, later, by decide, card, ismember _ member, lists Env.plain⟩

end PseudoRedis
