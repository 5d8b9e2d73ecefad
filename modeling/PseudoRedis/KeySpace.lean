/-
This file states the invariant of the key space and the rule by which every command
keeps it. A dictionary is sound when it is placed, when its count is right if anything
reads it, and when its values are sound; a list, a hash or a set of the key space is
sound when it is not empty. The proposition `E` says whether empty ones are let in.

The second half of the rule is about ownership: `Dict.ids` lists the allocations a
dictionary holds, keys, strings, entries of lists and members alike, and an operation
gains no more of them than it is given. `Change` is the two halves together; the lemmas
after it say that of each dictionary operation, and commands put them one after the other.
-/

import PseudoRedis.DictMap
import PseudoRedis.Handler
import Mathlib.Data.List.Nodup

namespace PseudoRedis

/-! ### Sound values and the allocations they hold -/

/-- What a dictionary has to know about its values. -/
class Store (V : Type) extends DictVal V where
  ids : V → List Nat
  /-- the values let in when `E` lets empty ones in -/
  Ok : Prop → V → Prop
  /-- whether the count of the dictionary is looked at -/
  counted : Prop

/-- The allocations a dictionary holds, given those its values hold. -/
def Dict.idsWith {V : Type} (valIds : V → List Nat) (dict : Dict V) : List Nat :=
  dict.entries.flatMap fun entry => entry.key.id :: valIds entry.val

instance : Store Bss where
  ids bss := [bss.id]
  Ok _ _ := True
  counted := True

instance : Store Unit where
  ids _ := []
  Ok _ _ := True
  counted := True

def Obj.ids : Obj → List Nat
  | .string bss => [bss.id]
  | .list entries => entries.map Bss.id
  | .hash dict => dict.idsWith Store.ids
  | .set dict => dict.idsWith Store.ids

/-- Containers are well formed and hold something, and the entries of lists fit a reply. -/
def Obj.Ok (E : Prop) : Obj → Prop
  | .string _ => True
  | .list entries => (E ∨ entries ≠ []) ∧ ∀ entry ∈ entries, entry.len ≤ maxRplySize
  | .hash dict => dict.WellFormed ∧ (E ∨ dict.entries ≠ [])
  | .set dict => dict.WellFormed ∧ (E ∨ dict.entries ≠ [])

instance : Store Obj where
  ids := Obj.ids
  Ok := Obj.Ok
  counted := False

/-- A dictionary of strings, in the key space or in a hash: what wrapping a string does. -/
class StrStore (V : Type) extends Store V, StrObj V where
  ids_create : ∀ bss, ids (bssCreateObj bss) = [bss.id]
  ok_create : ∀ E bss, Ok E (bssCreateObj bss)
  ids_string : ∀ {val bss}, string val = some bss → ids val = [bss.id]

instance : StrStore Bss where
  ids_create _ := rfl
  ok_create _ _ := trivial
  ids_string same := by cases same; rfl

instance : StrStore Obj where
  ids_create _ := rfl
  ok_create _ _ := trivial
  ids_string {val bss} same := by
    cases val with
    | string own =>
      cases same
      rfl
    | list entries => cases same
    | hash dict => cases same
    | set dict => cases same

variable {V : Type} [Store V]

/-- The allocations a dictionary holds. -/
def Dict.ids (dict : Dict V) : List Nat := dict.idsWith Store.ids

/-- The invariant of a dictionary. -/
structure Sound (E : Prop) (dict : Dict V) : Prop where
  placed : dict.Placed
  count : Store.counted V → dict.entryNum = dict.entries.length
  vals : ∀ entry ∈ dict.entries, Store.Ok E entry.val

theorem sound_hash_iff {E : Prop} {dict : Dict Bss} : Sound E dict ↔ dict.WellFormed :=
  ⟨fun sound => ⟨sound.placed, sound.count trivial⟩,
    fun wellFormed => ⟨wellFormed.toPlaced, fun _ => wellFormed.count, fun _ _ => trivial⟩⟩

theorem sound_set_iff {E : Prop} {dict : Dict Unit} : Sound E dict ↔ dict.WellFormed :=
  ⟨fun sound => ⟨sound.placed, sound.count trivial⟩,
    fun wellFormed => ⟨wellFormed.toPlaced, fun _ => wellFormed.count, fun _ _ => trivial⟩⟩

theorem sound_create (E : Prop) {power : Nat} (small : power ≤ 31) :
    Sound E (dictCreate power : Dict V) := by
  have wellFormed : (dictCreate power : Dict V).WellFormed := dictCreate_wellFormed small
  exact ⟨wellFormed.toPlaced, fun _ => wellFormed.count, by simp⟩

/-- What a look-up answers is sound. -/
theorem Sound.lookUp {E : Prop} {dict : Dict V} (sound : Sound E dict) {key : Bss} {val : V}
    (answer : dictLookUp dict key = some val) : Store.Ok E val := by
  obtain ⟨entry, others, rfl, found⟩ := found_of_lookUp sound.placed.sized answer
  exact sound.vals entry (found.entries.mem_iff.mpr List.mem_cons_self)

theorem mem_ids {dict : Dict V} {id : Nat} :
    id ∈ dict.ids ↔ ∃ entry ∈ dict.entries, id = entry.key.id ∨ id ∈ Store.ids entry.val := by
  rw [Dict.ids, Dict.idsWith, List.mem_flatMap]
  simp only [List.mem_cons]

theorem key_mem_ids {dict : Dict V} {entry : DictEntry V} (member : entry ∈ dict.entries) :
    entry.key.id ∈ dict.ids := mem_ids.mpr ⟨entry, member, Or.inl rfl⟩

/-- What a value holds is held by the dictionary it is looked up in. -/
theorem lookUp_mem_ids {dict : Dict V} (sized : dict.Sized) {key : Bss} {val : V}
    (answer : dictLookUp dict key = some val) {id : Nat} (member : id ∈ Store.ids val) :
    id ∈ dict.ids := by
  obtain ⟨entry, others, rfl, found⟩ := found_of_lookUp sized answer
  exact mem_ids.mpr ⟨entry, found.entries.mem_iff.mpr List.mem_cons_self, Or.inr member⟩

/-! ### Conservation -/

section Conservation

variable {held gain held' : List Nat}

/-- What is held afterwards was held before or gained. -/
theorem mem_of_conserve (conserve : ∀ id, held'.count id ≤ held.count id + gain.count id) {id : Nat}
    (member : id ∈ held') : id ∈ held ∨ id ∈ gain := by
  rw [← List.mem_append, ← List.count_pos_iff, List.count_append]
  exact Nat.lt_of_lt_of_le (List.count_pos_iff.mpr member) (conserve id)

/-- What is gained was not held before, so nothing is there twice. -/
theorem count_add_le_one (once : held.Nodup) (gained : gain.Nodup)
    (unheld : ∀ id ∈ gain, id ∉ held) (id : Nat) : held.count id + gain.count id ≤ 1 := by
  have apart : (held ++ gain).Nodup :=
    once.append gained fun id before new => unheld id new before
  rw [← List.count_append]
  exact List.nodup_iff_count_le_one.mp apart id

theorem nodup_of_conserve (conserve : ∀ id, held'.count id ≤ held.count id + gain.count id)
    (once : held.Nodup) (gained : gain.Nodup) (unheld : ∀ id ∈ gain, id ∉ held) : held'.Nodup :=
  List.nodup_iff_count_le_one.mpr fun id =>
    (conserve id).trans (count_add_le_one once gained unheld id)

/-- There are no more different addresses than there is room for. -/
theorem length_le_of_addressed {first last : Nat} (once : held.Nodup)
    (addressed : ∀ id ∈ held, first ≤ id ∧ id < last) : held.length ≤ last - first := by
  have inside : held ⊆ List.range' first (last - first) := by
    intro id member
    have place := addressed id member
    exact List.mem_range'_1.mpr ⟨place.1, by omega⟩
  exact (List.subperm_of_subset once inside).length_le.trans_eq List.length_range'

end Conservation

/-! ### Changes -/

/-- After the operation the dictionary is sound, and holds no allocation more often than before and
in what was gained. -/
structure Change (E : Prop) (dict : Dict V) (gain : List Nat) (dict' : Dict V) : Prop where
  sound : Sound E dict'
  conserve : ∀ id, dict'.ids.count id ≤ dict.ids.count id + gain.count id

theorem Change.refl {E : Prop} {dict : Dict V} (sound : Sound E dict) (gain : List Nat) :
    Change E dict gain dict :=
  ⟨sound, fun _ => Nat.le_add_right _ _⟩

theorem Change.trans {E : Prop} {first second third : Dict V} {gain gain' : List Nat}
    (before : Change E first gain second) (after : Change E second gain' third) :
    Change E first (gain ++ gain') third := by
  refine ⟨after.sound, fun id => ?_⟩
  have one := before.conserve id
  have two := after.conserve id
  rw [List.count_append]
  omega

theorem Change.mono {E : Prop} {dict dict' : Dict V} {gain gain' : List Nat}
    (change : Change E dict gain dict') (more : ∀ id, gain.count id ≤ gain'.count id) :
    Change E dict gain' dict' :=
  ⟨change.sound, fun id => Nat.le_trans (change.conserve id) (Nat.add_le_add_left (more id) _)⟩

/-- An allocation the new dictionary holds was held before or gained. -/
theorem Change.mem {E : Prop} {dict dict' : Dict V} {gain : List Nat}
    (change : Change E dict gain dict') {id : Nat} (member : id ∈ dict'.ids) :
    id ∈ dict.ids ∨ id ∈ gain := mem_of_conserve change.conserve member

theorem ids_of_entries {dict : Dict V} {entries : List (DictEntry V)}
    (same : dict.entries.Perm entries) (id : Nat) :
    dict.ids.count id =
      (entries.flatMap fun entry => entry.key.id :: Store.ids entry.val).count id :=
  (same.flatMap_right _).count_eq id

theorem count_ids_cons {dict : Dict V} {entry : DictEntry V} {others : List (DictEntry V)}
    (same : dict.entries.Perm (entry :: others)) (id : Nat) :
    dict.ids.count id = (entry.key.id :: Store.ids entry.val).count id +
      (others.flatMap fun other => other.key.id :: Store.ids other.val).count id := by
  rw [ids_of_entries same, List.flatMap_cons, List.count_append]

/-- A removal keeps the allocations of the other entries. -/
theorem count_ids_rmNf {dict : Dict V} (sized : dict.Sized) (key : Bss) (id : Nat) :
    (dictRmNf dict key).1.ids.count id ≤ dict.ids.count id := by
  cases answer : dictLookUp dict key with
  | none => rw [(absent_of_lookUp sized answer).rmNf]
  | some val =>
    obtain ⟨entry, others, -, found⟩ := found_of_lookUp sized answer
    rw [ids_of_entries found.rmNf.2.1, count_ids_cons found.entries]
    exact Nat.le_add_left _ _

/-- An assignment exchanges the allocations of the old value for those of the new one. -/
theorem count_ids_setVal {dict : Dict V} (sized : dict.Sized) {key : Bss} {old : V}
    (answer : dictLookUp dict key = some old) (new : V) (id : Nat) :
    (dictSetVal dict key new).ids.count id + (Store.ids old).count id =
      dict.ids.count id + (Store.ids new).count id := by
  obtain ⟨entry, others, rfl, found⟩ := found_of_lookUp sized answer
  rw [count_ids_cons (found.setVal new).entries, count_ids_cons found.entries]
  simp only [List.count_cons]
  omega

/-! ### The dictionary operations -/

theorem Change.rmNf {E : Prop} {dict : Dict V} (sound : Sound E dict) (key : Bss) :
    Change E dict [] (dictRmNf dict key).1 := by
  cases answer : dictLookUp dict key with
  | none =>
    rw [(absent_of_lookUp sound.placed.sized answer).rmNf]
    exact Change.refl sound []
  | some val =>
    obtain ⟨entry, others, -, found⟩ := found_of_lookUp sound.placed.sized answer
    obtain ⟨-, left, count⟩ := found.rmNf
    refine ⟨⟨dictRmNf_placed sound.placed key, fun counted => ?_, fun other member => ?_⟩,
      count_ids_rmNf sound.placed.sized key⟩
    · exact (dictRmNf_wellFormed ⟨sound.placed, sound.count counted⟩ key).count
    · exact sound.vals other
        (found.entries.mem_iff.mpr (List.mem_cons_of_mem _ (left.mem_iff.mp member)))

theorem Change.rm {E : Prop} {dict : Dict V} (sound : Sound E dict) (key : Bss) :
    Change E dict [] (dictRm dict key).1 := by
  rw [dictRm_fst]
  exact Change.rmNf sound key

/-- The entry that is taken out takes its allocations with it. -/
theorem Change.take {E : Prop} {dict dict' : Dict V} (sound : Sound E dict) {key : Bss}
    {entry : DictEntry V} (taken : dictRmNf dict key = (dict', some entry)) :
    Sound E dict' ∧ Store.Ok E entry.val ∧ ∀ id, dict'.ids.count id +
      (entry.key.id :: Store.ids entry.val).count id = dict.ids.count id := by
  obtain ⟨others, found, left⟩ := found_of_taken sound.placed.sized taken
  have change := (Change.rmNf sound key).sound
  rw [taken] at change
  refine ⟨change, sound.vals entry (found.entries.mem_iff.mpr List.mem_cons_self), fun id => ?_⟩
  rw [ids_of_entries left, count_ids_cons found.entries, Nat.add_comm]

/-- A removal forgets what was assigned to the key before. -/
theorem Change.rm_setVal {E : Prop} {dict : Dict V} (sound : Sound E dict) {key : Bss} {old : V}
    (answer : dictLookUp dict key = some old) (new : V) :
    Change E dict [] (dictRm (dictSetVal dict key new) key).1 := by
  rw [dictRm_fst, dictRmNf_dictSetVal sound.placed.sized answer]
  exact Change.rmNf sound key

theorem Change.add {E : Prop} {dict : Dict V} (sound : Sound E dict) {key : Bss} (short : key.Short)
    {obj : V} (ok : Store.Ok E obj) :
    Change E dict (key.id :: Store.ids obj) (dictAdd dict key obj) := by
  have placed := dictAdd_placed sound.placed short obj
  have count : Store.counted V → (dictAdd dict key obj).entryNum =
      (dictAdd dict key obj).entries.length := fun counted =>
    (dictAdd_wellFormed ⟨sound.placed, sound.count counted⟩ short obj).count
  cases answer : dictLookUp dict key with
  | none =>
    obtain ⟨others, same, found, -⟩ := (absent_of_lookUp sound.placed.sized answer).add obj
    refine ⟨⟨placed, count, fun entry member => ?_⟩, fun id => ?_⟩
    · rcases List.mem_cons.mp (found.entries.mem_iff.mp member) with rfl | inOthers
      · exact ok
      · exact sound.vals entry (same.mem_iff.mp inOthers)
    · rw [count_ids_cons found.entries, ids_of_entries same.symm, Nat.add_comm]
  | some val =>
    obtain ⟨entry, others, -, found⟩ := found_of_lookUp sound.placed.sized answer
    have own := sound.vals entry (found.entries.mem_iff.mpr List.mem_cons_self)
    refine ⟨⟨placed, count, fun other member => ?_⟩, fun id => ?_⟩
    · rcases List.mem_cons.mp ((found.add obj).entries.mem_iff.mp member) with rfl | inOthers
      · show Store.Ok E (if _ then _ else _)
        split
        · exact own
        · exact ok
      · exact sound.vals other (found.entries.mem_iff.mpr (List.mem_cons_of_mem _ inOthers))
    · rw [count_ids_cons (found.add obj).entries, count_ids_cons found.entries]
      simp only [List.count_cons]
      split <;> omega

/-- A renamed entry takes its value along. The count, which nothing restores, must not matter. -/
theorem Change.rename {E : Prop} {dict : Dict V} (sound : Sound E dict) (key : Bss) {newKey : Bss}
    (short : newKey.Short) (plain : ∀ val : V, DictVal.isSetValPtr val = false)
    (uncounted : ¬ Store.counted V) :
    Change E dict [newKey.id] (dictRename dict key newKey).1 ∧
      ((dictRename dict key newKey).2 ≠ 0 → (dictRename dict key newKey).1 = dict) := by
  cases taken : dictRmNf dict key with
  | mk dict' removed =>
    cases removed with
    | none =>
      have missing : dictRename dict key newKey = (dict', eNotFound) := by
        simp only [dictRename, taken]
      have same : dict' = dict := by
        cases answer : dictLookUp dict key with
        | none =>
          rw [(absent_of_lookUp sound.placed.sized answer).rmNf] at taken
          exact (congrArg Prod.fst taken).symm
        | some val =>
          obtain ⟨entry, others, -, found⟩ := found_of_lookUp sound.placed.sized answer
          have out := found.rmNf.1
          rw [taken] at out
          cases out
      rw [missing, same]
      exact ⟨Change.refl sound _, fun _ => rfl⟩
    | some entry =>
      obtain ⟨left, ok, count⟩ := Change.take sound taken
      obtain ⟨added, conserve⟩ := Change.add left short ok
      rw [dictRename_eq taken newKey plain]
      refine ⟨⟨⟨⟨?_, ?_, added.placed.distinct⟩,
          fun counted => absurd counted uncounted, added.vals⟩,
        fun id => ?_⟩, fun failed => absurd rfl failed⟩
      · exact ⟨added.placed.sized.power_le, added.placed.sized.mask⟩
      · exact added.placed.located
      · have after := conserve id
        have before := count id
        show (dictAdd dict' newKey entry.val).ids.count id ≤ _
        simp only [List.count_cons, List.count_nil] at after before ⊢
        omega

theorem Change.setVal {E : Prop} {dict : Dict V} (sound : Sound E dict) {key : Bss} {old new : V}
    {gain : List Nat} (answer : dictLookUp dict key = some old) (ok : Store.Ok E new)
    (more : ∀ id, (Store.ids new).count id ≤ (Store.ids old).count id + gain.count id) :
    Change E dict gain (dictSetVal dict key new) := by
  have exchanged := count_ids_setVal sound.placed.sized answer new
  obtain ⟨entry, others, rfl, found⟩ := found_of_lookUp sound.placed.sized answer
  refine ⟨⟨dictSetVal_placed sound.placed key new, fun counted => ?_, fun other member => ?_⟩,
    fun id => ?_⟩
  · exact (dictSetVal_wellFormed ⟨sound.placed, sound.count counted⟩ key new).count
  · rcases List.mem_cons.mp ((found.setVal new).entries.mem_iff.mp member) with rfl | inOthers
    · exact ok
    · exact sound.vals other (found.entries.mem_iff.mpr (List.mem_cons_of_mem _ inOthers))
  · have same := exchanged id
    have extra := more id
    omega

end PseudoRedis
