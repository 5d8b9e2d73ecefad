/-
This file is about `dict_rename`. The entry of the old key is unlinked, which lowers the
count, and its value then goes to the entry of the new key if there is one. Otherwise the
entry is linked in again, and the count stays one too low. So the look-ups are always those
of a renaming, and the count is right exactly if nothing had to be renamed or the new key
was already there under another name.
-/

import PseudoRedis.Append

namespace PseudoRedis

variable {V : Type} {dict : Dict V} {key newKey : Bss}

/-! ### What a renaming should be -/

/-- The new key has the value, the old one is gone, and the other keys are as they were. -/
structure Renamed (dict dict' : Dict V) (key newKey : Bss) (val : V) : Prop where
  wellFormed : dict'.WellFormed
  lookUp : ∀ other : Bss, other.Short → dictLookUp dict' other =
    if other.content = newKey.content then some val
    else if other.content = key.content then none else dictLookUp dict other

/-- `dict_rename` fails and changes nothing without the old key, and renames it otherwise. -/
def Renames (dict : Dict V) (key newKey : Bss) : Prop :=
  (dictLookUp dict key = none → dictRename dict key newKey = (dict, eNotFound)) ∧
    ∀ val, dictLookUp dict key = some val →
      ∃ dict', dictRename dict key newKey = (dict', 0) ∧ Renamed dict dict' key newKey val

/-! ### The count aside -/

theorem Dict.Placed.recount (placed : dict.Placed) (count : Int) :
    ({ dict with entryNum := count } : Dict V).Placed :=
  ⟨⟨placed.sized.power_le, placed.sized.mask⟩, placed.located, placed.distinct⟩

theorem dictRename_absent (sized : dict.Sized) (absent : dictLookUp dict key = none)
    (newKey : Bss) : dictRename dict key newKey = (dict, eNotFound) := by
  simp only [dictRename, (absent_of_lookUp sized absent).rmNf]

/-- The look-up of a key once another one has been taken out. -/
theorem lookUp_taken (placed : dict.Placed) (short : key.Short) {other : Bss}
    (otherShort : other.Short) :
    dictLookUp (dictRmNf dict key).1 other =
      if other.content = key.content then none else dictLookUp dict other := by
  split
  · rename_i same
    rw [lookUp_of_content (dictRmNf_placed placed key) short otherShort same]
    exact lookUp_dictRmNf_self placed short
  · rename_i different
    exact lookUp_dictRmNf_of_ne placed short otherShort different

/-- A renaming takes the entry out, adds its value under the new key, and does not count it. -/
theorem dictRename_present [DictVal V] (plain : ∀ val : V, DictVal.isSetValPtr val = false)
    (sized : dict.Sized) {val : V} (answer : dictLookUp dict key = some val) (newKey : Bss) :
    dictRename dict key newKey =
      ({ dictAdd (dictRmNf dict key).1 newKey val with
        entryNum := (dictRmNf dict key).1.entryNum }, 0) := by
  obtain ⟨entry, others, rfl, found⟩ := found_of_lookUp sized answer
  have taken : dictRmNf dict key = ((dictRmNf dict key).1, some entry) :=
    Prod.ext rfl found.rmNf.1
  exact dictRename_eq taken newKey plain

/-- An added value that replaces none is not counted. -/
theorem recounted_wellFormed_iff [DictVal V] (wellFormed : dict.WellFormed) (short : newKey.Short)
    (val : V) :
    ({ dictAdd dict newKey val with entryNum := dict.entryNum } : Dict V).WellFormed ↔
      dictLookUp dict newKey ≠ none := by
  have added := dictAdd_wellFormed wellFormed short val
  have same : ({ dictAdd dict newKey val with entryNum := dict.entryNum } : Dict V).entries =
      (dictAdd dict newKey val).entries := rfl
  cases answer : dictLookUp dict newKey with
  | none =>
    obtain ⟨others, -, -, count⟩ := (absent_of_lookUp wellFormed.sized answer).add val
    refine iff_of_false (fun recounted => ?_) fun present => present rfl
    have total := recounted.count
    rw [same, ← added.count, count] at total
    have unequal : dict.entryNum ≠ dict.entryNum + 1 := by omega
    exact unequal total
  | some old =>
    obtain ⟨entry, others, -, found⟩ := found_of_lookUp wellFormed.sized answer
    refine iff_of_true ⟨added.toPlaced.recount _, ?_⟩ (Option.some_ne_none _)
    rw [same, ← added.count, found.add_entryNum]

/-! ### The count -/

/-- With the old key there, a renaming is right if its result is well formed. -/
theorem renames_iff_wellFormed [DictVal V] (plain : ∀ val : V, DictVal.isSetValPtr val = false)
    (wellFormed : dict.WellFormed) (short : key.Short) (newShort : newKey.Short) {val : V}
    (answer : dictLookUp dict key = some val) :
    Renames dict key newKey ↔
      ({ dictAdd (dictRmNf dict key).1 newKey val with
        entryNum := (dictRmNf dict key).1.entryNum } : Dict V).WellFormed := by
  have renamed := dictRename_present plain wellFormed.sized answer newKey
  have left := dictRmNf_wellFormed wellFormed key
  constructor
  · intro renames
    obtain ⟨dict', ran, result⟩ := renames.2 val answer
    rw [renamed] at ran
    cases ran
    exact result.wellFormed
  · intro recounted
    refine ⟨fun absent => ?_, fun own found => ?_⟩
    · rw [answer] at absent
      cases absent
    · rw [answer] at found
      cases found
      refine ⟨_, renamed, recounted, fun other otherShort => ?_⟩
      show dictLookUp (dictAdd (dictRmNf dict key).1 newKey val) other = _
      have added := dictAdd_placed left.toPlaced newShort val
      split
      · rename_i same
        rw [lookUp_of_content added newShort otherShort same, lookUp_dictAdd_self left.sized]
        cases dictLookUp (dictRmNf dict key).1 newKey with
        | none => rfl
        | some old => simp only [plain old, Bool.false_eq_true, if_false]
      · rename_i different
        rw [lookUp_dictAdd_of_ne left.toPlaced newShort otherShort val different,
          lookUp_taken wellFormed.toPlaced short otherShort]

/-- The new key is still there once the old one is out. -/
theorem taken_present_iff (placed : dict.Placed) (short : key.Short) (newShort : newKey.Short) :
    dictLookUp (dictRmNf dict key).1 newKey ≠ none ↔
      dictLookUp dict newKey ≠ none ∧ newKey.content ≠ key.content := by
  rw [lookUp_taken placed short newShort]
  split
  · rename_i same
    exact iff_of_false (fun present => present rfl) fun both => both.2 same
  · rename_i different
    rw [and_iff_left different]

/-- `dict_rename` is a renaming exactly if the old key is absent, or if the new one is there under
other bytes. -/
theorem dictRename_renames_iff (dict : Dict V) (key newKey : Bss) (wellFormed : dict.WellFormed)
    (short : key.Short) (newShort : newKey.Short) :
    Renames dict key newKey ↔
      dictLookUp dict key = none ∨
        dictLookUp dict newKey ≠ none ∧ newKey.content ≠ key.content := by
  cases answer : dictLookUp dict key with
  | none =>
    refine iff_of_true ⟨fun _ => dictRename_absent wellFormed.sized answer newKey,
      fun val found => ?_⟩ (Or.inl rfl)
    rw [answer] at found
    cases found
  | some val =>
    let plain : DictVal V := ⟨fun _ => false⟩
    rw [or_iff_right (Option.some_ne_none val),
      renames_iff_wellFormed (fun _ => rfl) wellFormed short newShort answer,
      recounted_wellFormed_iff (dictRmNf_wellFormed wellFormed key) newShort val,
      taken_present_iff wellFormed.toPlaced short newShort]

/-- The key space after `SET k A` and `SET b B`. -/
def lettersKey : Dict Obj := dictAdd letterKey (textArg 3 "b") (.string (textArg 4 "B"))

/-- `RENAME k b` where `b` is there. -/
theorem dictRename_renames_iff_letters : Renames lettersKey (textArg 5 "k") (textArg 6 "b") :=
  (dictRename_renames_iff lettersKey (textArg 5 "k") (textArg 6 "b")
    (dictAdd_wellFormed letterKey_wellFormed (textArg_arg 3 (by decide)).short _)
    (textArg_arg 5 (by decide)).short (textArg_arg 6 (by decide)).short).mpr
      (Or.inr ⟨Option.some_ne_none (Obj.string (textArg 4 "B")), by decide⟩)

/-- `RENAME k b` where `b` is not there: one key is left, and the count is zero. -/
theorem dictRename_loses_count :
    ∃ (dict : Dict Obj) (key newKey : Bss), Reachable (fun _ _ => True) dict ∧ dict.WellFormed ∧
      key.Short ∧ newKey.Short ∧ ¬ Renames dict key newKey ∧
      (renameCommand dict [key, newKey] = okReply (dictRename dict key newKey).1) ∧
      dictLookUp (dictRename dict key newKey).1 newKey ≠ none ∧
      (dictRename dict key newKey).1.entryNum = 0 := by
  have count : (dictRename letterKey (textArg 5 "k") (textArg 6 "b")).1.entryNum = 0 := rfl
  have present : dictLookUp (dictRename letterKey (textArg 5 "k") (textArg 6 "b")).1
      (textArg 6 "b") = some (.string (textArg 2 "A")) := rfl
  have newShort : (textArg 6 "b").Short := (textArg_arg 6 (by decide)).short
  refine ⟨letterKey, textArg 5 "k", textArg 6 "b", letterKey_reachable, letterKey_wellFormed,
    (textArg_arg 5 (by decide)).short, newShort, fun renames => ?_, rfl,
    present ▸ Option.some_ne_none _, count⟩
  obtain ⟨dict', ran, renamed⟩ := renames.2 (.string (textArg 2 "A")) rfl
  have total := renamed.wellFormed.count
  have same : (dictRename letterKey (textArg 5 "k") (textArg 6 "b")).1 = dict' :=
    congrArg Prod.fst ran
  rw [← same, count] at total
  have empty : (dictRename letterKey (textArg 5 "k") (textArg 6 "b")).1.entries = [] :=
    List.length_eq_zero_iff.mp (Int.ofNat.inj total.symm)
  rw [← same] at renamed
  obtain ⟨entry, member, -⟩ := (lookUp_eq_some_iff renamed.wellFormed.toPlaced newShort).mp present
  rw [empty] at member
  cases member

end PseudoRedis
