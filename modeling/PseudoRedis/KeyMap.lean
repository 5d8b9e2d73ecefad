/-
This file says what the operations of a dictionary do to the finite map it stands for
(`Dict.toMap`): each of them updates the map at the contents of its key and nowhere
else. The map is read at any byte string; no dictionary holds a key that is too long for
a string, so the look-ups of all strings determine it.
-/

import PseudoRedis.Atomic
import PseudoRedis.Rename

namespace PseudoRedis

variable {V : Type} {dict dict' : Dict V} {key newKey : Bss}

/-! ### From look-ups to the map -/

theorem toMap_eq_none_of_long (placed : dict.Placed) {key : Bytes} (long : 2 ^ 31 ≤ key.length) :
    dict.toMap key = none := by
  rw [Dict.toMap, Option.map_eq_none_iff, List.find?_eq_none]
  intro entry member same
  have short := placed.short member
  have length := short.content_length
  rw [beq_iff_eq.mp same] at length
  exact absurd short.len_lt (by omega)

/-- The string of a key that is not too long. -/
theorem exists_short {key : Bytes} (small : key.length < 2 ^ 31) :
    ∃ bss : Bss, bss.Short ∧ bss.content = key :=
  ⟨⟨0, key.length, 0, key⟩, ⟨small, Nat.le_refl _⟩, List.take_length⟩

/-- A map that the look-ups show to be updated at one key. -/
theorem toMap_update (placed : dict.Placed) (placed' : dict'.Placed) (short : key.Short)
    {val : Option V} (self : dictLookUp dict' key = val)
    (others : ∀ other : Bss, other.Short → other.content ≠ key.content →
      dictLookUp dict' other = dictLookUp dict other) :
    dict'.toMap = Function.update dict.toMap key.content val := by
  funext place
  by_cases same : place = key.content
  · rw [same, Function.update_self, ← lookUp_eq_toMap placed' short, self]
  · rw [Function.update_of_ne same]
    by_cases small : place.length < 2 ^ 31
    · obtain ⟨other, otherShort, rfl⟩ := exists_short small
      rw [← lookUp_eq_toMap placed otherShort, ← lookUp_eq_toMap placed' otherShort]
      exact others other otherShort same
    · rw [toMap_eq_none_of_long placed (Nat.not_lt.mp small),
        toMap_eq_none_of_long placed' (Nat.not_lt.mp small)]

/-! ### The operations -/

theorem toMap_dictCreate (power : Nat) : (dictCreate power : Dict V).toMap = fun _ => none := by
  funext key
  simp only [Dict.toMap, dictCreate_entries, List.find?_nil, Option.map_none]

theorem toMap_dictAdd [DictVal V] (placed : dict.Placed) (short : key.Short) (obj : V) :
    (dictAdd dict key obj).toMap = Function.update dict.toMap key.content
      (some (match dict.toMap key.content with
        | some old => if DictVal.isSetValPtr old then old else obj
        | none => obj)) := by
  refine toMap_update placed (dictAdd_placed placed short obj) short ?_
    fun other otherShort different => lookUp_dictAdd_of_ne placed short otherShort obj different
  have held : dictLookUp dict key = dict.toMap key.content := lookUp_eq_toMap placed short
  cases before : dict.toMap key.content <;>
    simp only [lookUp_dictAdd_self placed.sized, held.trans before]

/-- A value that is not `SET_VAL_PTR` is always replaced. -/
theorem toMap_dictAdd_plain [DictVal V] (plain : ∀ val : V, DictVal.isSetValPtr val = false)
    (placed : dict.Placed) (short : key.Short) (obj : V) :
    (dictAdd dict key obj).toMap = Function.update dict.toMap key.content (some obj) := by
  rw [toMap_dictAdd placed short]
  cases dict.toMap key.content with
  | none => rfl
  | some old => simp only [plain, Bool.false_eq_true, if_false]

theorem toMap_dictAddShallow [DictVal V] (placed : dict.Placed) (short : key.Short) (obj : V) :
    (dictAddShallow dict key obj).toMap = Function.update dict.toMap key.content
      (some ((dict.toMap key.content).getD obj)) := by
  rw [← lookUp_eq_toMap placed short]
  cases answer : dictLookUp dict key with
  | none =>
    rw [(absent_of_lookUp placed.sized answer).addShallow_eq obj, toMap_dictAdd placed short,
      ← lookUp_eq_toMap placed short, answer]
    rfl
  | some old =>
    obtain ⟨entry, others, -, found⟩ := found_of_lookUp placed.sized answer
    rw [found.addShallow obj, Option.getD_some, ← answer, lookUp_eq_toMap placed short,
      Function.update_eq_self]

theorem toMap_dictRmNf (placed : dict.Placed) (short : key.Short) :
    (dictRmNf dict key).1.toMap = Function.update dict.toMap key.content none :=
  toMap_update placed (dictRmNf_placed placed key) short (lookUp_dictRmNf_self placed short)
    fun _ otherShort different => lookUp_dictRmNf_of_ne placed short otherShort different

/-- An entry is taken out exactly if a look-up finds it. -/
theorem dictRmNf_eq_none_iff (dict : Dict V) (key : Bss) :
    (dictRmNf dict key).2 = none ↔ dictLookUp dict key = none := by
  have iter : dictLookUpIter dict key = dictLookUpHash dict (dict.slot key) key := rfl
  rw [dictLookUp, iter, Option.map_eq_none_iff, dictRmNf, DictIter.curr]
  cases (dictLookUpHash dict (dict.slot key) key).rest with
  | nil => exact iff_of_true rfl rfl
  | cons entry rest => exact iff_of_false (Option.some_ne_none _) (Option.some_ne_none _)

theorem dictSetVal_absent (sized : dict.Sized) (absent : dictLookUp dict key = none) (val : V) :
    dictSetVal dict key val = dict := by
  rw [dictSetVal, (absent_of_lookUp sized absent).iter]

theorem toMap_dictSetVal (placed : dict.Placed) (short : key.Short) (val : V) :
    (dictSetVal dict key val).toMap = Function.update dict.toMap key.content
      ((dict.toMap key.content).map fun _ => val) := by
  rw [← lookUp_eq_toMap placed short]
  cases answer : dictLookUp dict key with
  | none =>
    rw [dictSetVal_absent placed.sized answer, Option.map_none, ← answer,
      lookUp_eq_toMap placed short, Function.update_eq_self]
  | some old =>
    exact toMap_update placed (dictSetVal_placed placed key val) short
      (lookUp_dictSetVal_self placed.sized answer val)
      fun _ otherShort different => lookUp_dictSetVal_of_ne placed short otherShort val different

/-- The map of a renamed dictionary; a count that is wrong does not show in it. -/
theorem toMap_dictRename [DictVal V] (plain : ∀ val : V, DictVal.isSetValPtr val = false)
    (placed : dict.Placed) (short : key.Short) (newShort : newKey.Short) :
    (dictRename dict key newKey).2 = (if dict.toMap key.content = none then eNotFound else 0) ∧
      (dictRename dict key newKey).1.toMap =
        if dict.toMap key.content = none then dict.toMap
        else Function.update (Function.update dict.toMap key.content none) newKey.content
          (dict.toMap key.content) := by
  rw [← lookUp_eq_toMap placed short]
  cases answer : dictLookUp dict key with
  | none =>
    rw [dictRename_absent placed.sized answer, if_pos rfl, if_pos rfl]
    exact ⟨rfl, rfl⟩
  | some obj =>
    have left := dictRmNf_placed placed key
    rw [dictRename_present plain placed.sized answer, if_neg (Option.some_ne_none _),
      if_neg (Option.some_ne_none _)]
    refine ⟨rfl, ?_⟩
    rw [← toMap_dictRmNf placed short, ← toMap_dictAdd_plain plain left newShort]
    rfl

end PseudoRedis
