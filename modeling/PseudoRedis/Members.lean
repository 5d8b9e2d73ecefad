/-
This file reads a set of the server as a finite set of byte strings. The members of a well
formed set are the contents of its keys, each of them once, so its counter is their number.
A look-up tests for membership, an addition inserts and a removal erases; what a command
does to a set is then said in terms of finite sets.
-/

import PseudoRedis.Commands.SetEffects
import Mathlib.Data.Finset.Card

namespace PseudoRedis

/-! ### The members of a set -/

variable {V : Type}

/-- The contents of the keys of a dictionary. -/
def members (dict : Dict V) : Finset Bytes :=
  (dict.entries.map fun entry => entry.key.content).toFinset

theorem mem_members {set : Dict V} {content : Bytes} :
    content ∈ members set ↔ ∃ entry ∈ set.entries, entry.key.content = content := by
  rw [members, List.mem_toFinset, List.mem_map]

theorem members_of_perm {set : Dict V} {entries : List (DictEntry V)}
    (same : set.entries.Perm entries) :
    members set = (entries.map fun entry => entry.key.content).toFinset :=
  List.toFinset_eq_of_perm _ _ (same.map _)

@[simp]
theorem members_create (power : Nat) : members (dictCreate power : Dict V) = ∅ := by
  rw [members, dictCreate_entries]
  rfl

theorem card_members {set : Dict V} (placed : set.Placed) :
    (members set).card = set.entries.length := by
  rw [members, List.toFinset_card_of_nodup placed.distinct, List.length_map]

theorem members_nonempty_iff (set : Dict V) : members set = ∅ ↔ set.entries = [] := by
  rw [members, List.toFinset_eq_empty_iff, List.map_eq_nil_iff]

variable {set : Dict Unit} {key : Bss}

/-- A look-up tests for membership. -/
theorem lookUp_member_iff {set : Dict V} (placed : set.Placed) (short : key.Short) :
    dictLookUp set key ≠ none ↔ key.content ∈ members set := by
  rw [mem_members, Option.ne_none_iff_exists']
  constructor
  · rintro ⟨val, answer⟩
    obtain ⟨entry, member, same, -⟩ := (lookUp_eq_some_iff placed short).mp answer
    exact ⟨entry, member, same⟩
  · rintro ⟨entry, member, same⟩
    exact ⟨entry.val, (lookUp_eq_some_iff placed short).mpr ⟨entry, member, same, rfl⟩⟩

theorem lookUp_member_none {set : Dict V} (placed : set.Placed) (short : key.Short) :
    dictLookUp set key = none ↔ key.content ∉ members set := by
  rw [← lookUp_member_iff placed short, not_not]

/-- An addition inserts. -/
@[simp]
theorem members_dictAdd [DictVal V] {set : Dict V} (placed : set.Placed) (short : key.Short)
    (obj : V) : members (dictAdd set key obj) = insert key.content (members set) := by
  cases answer : dictLookUp set key with
  | none =>
    obtain ⟨others, same, found, -⟩ := (absent_of_lookUp placed.sized answer).add obj
    rw [members_of_perm found.entries, List.map_cons, List.toFinset_cons, members_of_perm same.symm]
  | some val =>
    obtain ⟨entry, others, -, found⟩ := found_of_lookUp placed.sized answer
    rw [members_of_perm (found.add obj).entries, members_of_perm found.entries, List.map_cons,
      List.map_cons, List.toFinset_cons, List.toFinset_cons, found.content placed short,
      Finset.insert_idem]

/-- A removal erases. -/
theorem members_dictRmNf {set : Dict V} (placed : set.Placed) (short : key.Short) :
    members (dictRmNf set key).1 = (members set).erase key.content := by
  cases answer : dictLookUp set key with
  | none =>
    rw [(absent_of_lookUp placed.sized answer).rmNf, Finset.erase_eq_of_notMem]
    exact (lookUp_member_none placed short).mp answer
  | some val =>
    obtain ⟨entry, others, -, found⟩ := found_of_lookUp placed.sized answer
    have gone : key.content ∉ (others.map fun entry => entry.key.content).toFinset := by
      rw [List.mem_toFinset, List.mem_map]
      rintro ⟨other, member, same⟩
      exact found.not_mem placed short member same
    rw [members_of_perm found.rmNf.2.1, members_of_perm found.entries, List.map_cons,
      List.toFinset_cons, found.content placed short, Finset.erase_insert gone]

/-- A shallow addition of a member changes nothing, and that of another string is an addition. -/
theorem dictAddShallow_cases (sized : set.Sized) (key : Bss) :
    dictAddShallow set key () = if dictLookUp set key = none then dictAdd set key () else set := by
  cases answer : dictLookUp set key with
  | none =>
    rw [if_pos rfl]
    exact (absent_of_lookUp sized answer).addShallow_eq ()
  | some val =>
    obtain ⟨entry, others, -, found⟩ := found_of_lookUp sized answer
    rw [if_neg (Option.some_ne_none _)]
    exact found.addShallow ()

theorem dictAddShallow_wellFormed (wellFormed : set.WellFormed) (short : key.Short) :
    (dictAddShallow set key ()).WellFormed := by
  rw [dictAddShallow_cases wellFormed.sized]
  split
  · exact dictAdd_wellFormed wellFormed short ()
  · exact wellFormed

theorem members_dictAddShallow (placed : set.Placed) (short : key.Short) :
    members (dictAddShallow set key ()) = insert key.content (members set) := by
  rw [dictAddShallow_cases placed.sized]
  split
  · exact members_dictAdd placed short ()
  · rename_i present
    exact (Finset.insert_eq_of_mem ((lookUp_member_iff placed short).mp present)).symm

/-! ### The sets of a key space -/

/-- The set under a key, if there is one. -/
def setAt (dict : Dict Obj) (key : Bss) : Option (Dict Unit) :=
  match dictLookUp dict key with
  | some (.set set) => some set
  | _ => none

/-- The members under a key; an absent key counts as the empty set. -/
def membersAt (dict : Dict Obj) (key : Bss) : Finset Bytes := (setAt dict key).elim ∅ members

/-- The key is absent or holds a well formed set. -/
def HoldsSet (dict : Dict Obj) (key : Bss) : Prop :=
  dictLookUp dict key = none ∨ ∃ set, dictLookUp dict key = some (.set set) ∧ set.WellFormed

theorem HoldsSet.wellFormed {dict : Dict Obj} (holds : HoldsSet dict key)
    (found : setAt dict key = some set) : set.WellFormed := by
  rw [setAt] at found
  rcases holds with absent | ⟨own, answer, wellFormed⟩
  · rw [absent] at found
    cases found
  · rw [answer] at found
    cases found
    exact wellFormed

theorem setsAt_eq {dict : Dict Obj} {keys : List Bss} (holds : ∀ key ∈ keys, HoldsSet dict key) :
    setsAt dict keys = some (keys.map (setAt dict)) := by
  induction keys with
  | nil => rfl
  | cons key rest inductionHypothesis =>
    have others := inductionHypothesis fun other member =>
      holds other (List.mem_cons_of_mem _ member)
    rcases holds key List.mem_cons_self with absent | ⟨set, answer, -⟩
    · simp only [setsAt, absent, others, List.map_cons, setAt, Option.map_some]
    · simp only [setsAt, answer, others, List.map_cons, setAt, Option.map_some]

/-! ### Replies that list a set -/

/-- The command passes the members of a set, each of them once, to `addto_reply_arr`, encodes the
array, and leaves the key space alone. -/
def ListsSet (env : Env) (dict : Dict Obj) (run : Run Obj) (set : Finset Bytes) : Prop :=
  ∃ keys : List Bss,
    (run = fun sh => arrReply env dict
      (addAll (resetReplyArr sh) (keys.map fun key => ⟨some key, strNormal⟩))) ∧
    (keys.map Bss.content).Nodup ∧ (keys.map Bss.content).toFinset = set

theorem listsSet_members (env : Env) (dict : Dict Obj) (placed : set.Placed) :
    ListsSet env dict (fillReply env dict (dictIter set (addkeyToArr env none))) (members set) := by
  refine ⟨set.entries.map DictEntry.key, ?_, ?_, ?_⟩
  · funext sh
    rw [fillReply, dictIter_addkey, List.map_map]
    rfl
  · rw [List.map_map]
    exact placed.distinct
  · rw [List.map_map]
    rfl

/-- The same without the result of `dict_iter`. -/
theorem listsSet_copy (env : Env) (dict : Dict Obj) (placed : set.Placed) :
    ListsSet env dict
      (fillReply env dict fun sh => ((dictIter set (addkeyToArr env none) sh).1, 0))
      (members set) := by
  obtain ⟨keys, same, listed⟩ := listsSet_members env dict placed
  refine ⟨keys, ?_, listed⟩
  rw [← same]
  funext sh
  rw [fillReply, fillReply, dictIter_addkey]

theorem listsSet_empty (env : Env) (dict : Dict Obj) :
    ListsSet env dict (fillReply env dict fun sh => (sh, 0)) ∅ :=
  ⟨[], rfl, List.nodup_nil, rfl⟩

end PseudoRedis
