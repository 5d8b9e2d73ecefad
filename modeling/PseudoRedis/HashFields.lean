/-
This file is about the fields of one hash. `HSET` and `HSETNX` say in their reply whether a
field is new, apart from one path of `HSETNX` that returns the reply of `SET`. `HKEYS`,
`HVALS` and `HGETALL` walk over the same entries with three callbacks, one of which falls
off its end.
-/

import PseudoRedis.Members
import PseudoRedis.Ranges

namespace PseudoRedis

/-! ### Setting a field -/

/-- The two commands that set one field. -/
inductive FieldSetter where
  | hset
  | hsetnx

def FieldSetter.run (dict : Dict Obj) (args : List Bss) : FieldSetter → Run Obj
  | .hset => hsetCommand dict args
  | .hsetnx => hsetnxCommand dict args

/-- The value of a field, if the key holds a hash that has it. -/
def fieldAt (dict : Dict Obj) (key field : Bss) : Option Bss :=
  match dictLookUp dict key with
  | some (.hash hash) => dictLookUp hash field
  | _ => none

/-- The command replies with an integer: 1 for a field that was not there before, 0 for others. -/
def SaysNew (dict : Dict Obj) (key field : Bss) (run : Run Obj) : Prop :=
  ∃ dict', run = intReply dict' (if fieldAt dict key field = none then 1 else 0)

variable {dict : Dict Obj} {key field val : Bss} {hash : Dict Bss}

theorem okReply_not_saysNew (dict' : Dict Obj) : ¬ SaysNew dict key field (okReply dict') := by
  rintro ⟨dict'', same⟩
  have types := congrArg (fun result => result.sh.curr.replyType)
    (Except.ok.inj (congrFun same (Shared.holding [])))
  exact absurd types (by decide : rplyOk ≠ rplyInt)

theorem hset_saysNew (holds : dictLookUp dict key = none ∨
    ∃ hash, dictLookUp dict key = some (.hash hash)) :
    SaysNew dict key field (hsetCommand dict [key, field, val]) := by
  rcases holds with absent | ⟨hash, answer⟩
  · simp only [SaysNew, fieldAt, hsetCommand, absent]
    exact ⟨putBack Kind.hash (addHash dict key) key (dictAdd (dictCreate newDictPow) field val),
      rfl⟩
  · simp only [SaysNew, fieldAt, hsetCommand, answer]
    refine ⟨putBack Kind.hash dict key (dictAdd hash field val), ?_⟩
    cases dictLookUp hash field with
    | none => rfl
    | some old => rfl

/-- The paths of `HSETNX`: a new field of a hash that is there gets the reply of `SET`. -/
theorem hsetnx_saysNew_iff (holds : dictLookUp dict key = none ∨
    ∃ hash, dictLookUp dict key = some (.hash hash)) :
    SaysNew dict key field (hsetnxCommand dict [key, field, val]) ↔
      dictLookUp dict key = none ∨ fieldAt dict key field ≠ none := by
  rcases holds with absent | ⟨hash, answer⟩
  · refine iff_of_true ?_ (Or.inl absent)
    simp only [SaysNew, fieldAt, hsetnxCommand, absent]
    exact ⟨putBack Kind.hash (addHash dict key) key (dictAdd (dictCreate newDictPow) field val),
      rfl⟩
  · cases found : dictLookUp hash field with
    | none =>
      have set : hsetnxCommand dict [key, field, val] =
          okReply (putBack Kind.hash dict key (dictAdd hash field val)) := by
        simp only [hsetnxCommand, answer, found]
        rfl
      rw [set, answer]
      refine iff_of_false (okReply_not_saysNew _) ?_
      rintro (absent | present)
      · cases absent
      · exact present (by simp only [fieldAt, answer, found])
    | some old =>
      have old' : fieldAt dict key field = some old := by simp only [fieldAt, answer, found]
      refine iff_of_true ⟨dict, ?_⟩ (Or.inr (old' ▸ Option.some_ne_none old))
      simp only [hsetnxCommand, answer, found, old', reduceCtorEq, if_false]
      rfl

/-- On a key that is absent or holds a hash, `HSET` always says whether the field is new, and
`HSETNX` unless it adds a field to a hash that is there. -/
theorem field_setters_say_new_iff (setter : FieldSetter) (dict : Dict Obj) (key field val : Bss)
    (holds : dictLookUp dict key = none ∨ ∃ hash, dictLookUp dict key = some (.hash hash)) :
    SaysNew dict key field (setter.run dict [key, field, val]) ↔
      setter = .hset ∨ dictLookUp dict key = none ∨ fieldAt dict key field ≠ none := by
  cases setter with
  | hset => exact iff_of_true (hset_saysNew holds) (Or.inl rfl)
  | hsetnx =>
    refine (hsetnx_saysNew_iff holds).trans (or_iff_right ?_).symm
    rintro ⟨⟩

/-- A hash of one field. -/
def oneHash : Dict Bss := dictAdd (dictCreate newDictPow) (textArg 2 "f") (textArg 3 "v")

/-- The key space after `HSET h f v`. -/
def hashKey : Dict Obj := dictAdd (dictCreate initDictSize) (textArg 1 "h") (.hash oneHash)

theorem oneHash_wellFormed : oneHash.WellFormed :=
  dictAdd_wellFormed (dictCreate_wellFormed newDictPow_le) (textArg_arg 2 (by decide)).short _

theorem hashKey_reachable : Reachable (fun _ _ => True) hashKey := by
  have ran : (textCall .hset [(1, "h"), (2, "f"), (3, "v")] (by decide)).run
      (dictCreate initDictSize) (Shared.holding []) = .ok ⟨putBack Kind.hash
        (addHash (dictCreate initDictSize) (textArg 1 "h")) (textArg 1 "h") oneHash,
        (createIntReply (createEmptyReply (Shared.holding []) rplyOk).1 1).1, 0⟩ := rfl
  have same : putBack Kind.hash (addHash (dictCreate initDictSize) (textArg 1 "h"))
      (textArg 1 "h") oneHash = hashKey :=
    dictSetVal_dictAdd (dictCreate_sized (by decide)) (fun _ => rfl) _ _ _
  rw [same] at ran
  exact .step _ .start trivial ran

/-- `HSETNX h f w` on a field that is there. -/
theorem field_setters_say_new_iff_old :
    SaysNew hashKey (textArg 4 "h") (textArg 5 "f")
      (FieldSetter.hsetnx.run hashKey [textArg 4 "h", textArg 5 "f", textArg 6 "w"]) :=
  (field_setters_say_new_iff .hsetnx hashKey (textArg 4 "h") (textArg 5 "f") (textArg 6 "w")
    (Or.inr ⟨oneHash, rfl⟩)).mpr (Or.inr (Or.inr (Option.some_ne_none (textArg 3 "v"))))

/-- `HSETNX h g w` on a field that is not there is answered with `OK`. -/
theorem hsetnx_says_ok :
    ∃ (setter : FieldSetter) (dict : Dict Obj) (key field val : Bss),
      Reachable (fun _ _ => True) dict ∧
      (dictLookUp dict key = none ∨ ∃ hash, dictLookUp dict key = some (.hash hash)) ∧
      ¬ SaysNew dict key field (setter.run dict [key, field, val]) ∧
      ∃ dict', setter.run dict [key, field, val] = okReply dict' := by
  have ran : hsetnxCommand hashKey [textArg 4 "h", textArg 5 "g", textArg 6 "w"] =
      okReply (putBack Kind.hash hashKey (textArg 4 "h")
        (dictAdd oneHash (textArg 5 "g") (textArg 6 "w"))) := rfl
  refine ⟨.hsetnx, hashKey, textArg 4 "h", textArg 5 "g", textArg 6 "w", hashKey_reachable,
    Or.inr ⟨oneHash, rfl⟩, ?_, _, ran⟩
  rw [FieldSetter.run, ran]
  exact okReply_not_saysNew _

/-! ### Listing the fields -/

/-- What the three commands pass for a hash: `HKEYS` its fields, each of them once, `HVALS` their
values as `HGET` gives them, `HGETALL` both in turn, and `HLEN` their number; and the callback of
`HGETALL` lets the iteration go on after every pair. -/
structure PairsUp (env : Env) (dict : Dict Obj) (key : Bss) (hash : Dict Bss)
    (fields vals : List Bss) : Prop where
  hgetall : Passes env dict (hgetallCommand env dict [key])
    ((fields.zip vals).flatMap fun pair => [pair.1, pair.2])
  hkeys : Passes env dict (hkeysCommand env dict [key]) fields
  hvals : Passes env dict (hvalsCommand env dict [key]) vals
  paired : fields.length = vals.length
  once : (fields.map Bss.content).Nodup
  all : (fields.map Bss.content).toFinset = members hash
  hget : ∀ pair ∈ fields.zip vals,
    hgetCommand dict [key, pair.1] = stringReply dict pair.2.str pair.2.len
  hlen : hlenCommand dict [key] = intReply dict fields.length
  goesOn : ∀ entry ∈ hash.entries, ∀ sh, (addKeyValToArr env entry sh).2 = 0

variable {env : Env}

theorem hkeys_passes (env : Env) (answer : dictLookUp dict key = some (.hash hash)) :
    Passes env dict (hkeysCommand env dict [key]) (hash.entries.map DictEntry.key) := by
  simp only [Passes, hkeysCommand, hkeyssmembersCommand, answer, Kind.hash]
  congr 1
  funext sh
  rw [dictIter_addkey, List.map_map]
  rfl

theorem hvals_passes (env : Env) (answer : dictLookUp dict key = some (.hash hash)) :
    Passes env dict (hvalsCommand env dict [key]) (hash.entries.map DictEntry.val) := by
  simp only [Passes, hvalsCommand, answer]
  congr 1
  funext sh
  rw [dictIter_addval, List.map_map]
  rfl

theorem hgetall_passes (goesOn : PairsGoOn env hash.entries)
    (answer : dictLookUp dict key = some (.hash hash)) :
    Passes env dict (hgetallCommand env dict [key])
      (hash.entries.flatMap fun entry => [entry.key, entry.val]) := by
  simp only [Passes, hgetallCommand, answer]
  congr 1
  funext sh
  rw [dictIter_addKeyVal goesOn, List.map_flatMap]
  rfl

theorem hget_replies (wellFormed : hash.WellFormed)
    (answer : dictLookUp dict key = some (.hash hash)) {entry : DictEntry Bss}
    (member : entry ∈ hash.entries) :
    hgetCommand dict [key, entry.key] = stringReply dict entry.val.str entry.val.len := by
  have short := wellFormed.toPlaced.short member
  have found : dictLookUp hash entry.key = some entry.val :=
    (lookUp_eq_some_iff wellFormed.toPlaced short).mpr ⟨entry, member, rfl, rfl⟩
  simp only [hgetCommand, answer, getCommandOn, found]
  exact within_string hash entry.val.str entry.val.len _

theorem zip_entries (entries : List (DictEntry Bss)) :
    (entries.map DictEntry.key).zip (entries.map DictEntry.val) =
      entries.map fun entry => (entry.key, entry.val) :=
  List.zip_map'

/-- With a callback that goes on, the entries of the hash are the pairs. -/
theorem pairsUp_entries (goesOn : PairsGoOn env hash.entries)
    (wellFormed : hash.WellFormed) (answer : dictLookUp dict key = some (.hash hash)) :
    PairsUp env dict key hash (hash.entries.map DictEntry.key)
      (hash.entries.map DictEntry.val) where
  hgetall := by
    rw [zip_entries, List.flatMap_map]
    exact hgetall_passes goesOn answer
  hkeys := hkeys_passes env answer
  hvals := hvals_passes env answer
  paired := by rw [List.length_map, List.length_map]
  once := by
    rw [List.map_map]
    exact wellFormed.distinct
  all := by
    rw [List.map_map]
    rfl
  hget pair member := by
    rw [zip_entries] at member
    obtain ⟨entry, inside, rfl⟩ := List.mem_map.mp member
    exact hget_replies wellFormed answer inside
  hlen := by
    simp only [hlenCommand, answer, wellFormed.count, List.length_map]
  goesOn entry member sh := by
    rw [addKeyValToArr_eq]
    exact goesOn entry member

/-- The three commands agree on a hash exactly if the callback of `HGETALL` comes to return zero
each time it falls off its end. -/
theorem hash_lists_pair_iff (env : Env) (dict : Dict Obj) (key : Bss) (hash : Dict Bss)
    (wellFormed : hash.WellFormed) (answer : dictLookUp dict key = some (.hash hash)) :
    (∃ fields vals, PairsUp env dict key hash fields vals) ↔ PairsGoOn env hash.entries := by
  constructor
  · rintro ⟨fields, vals, pairsUp⟩ entry member
    have returned := pairsUp.goesOn entry member (Shared.holding [])
    rw [addKeyValToArr_eq] at returned
    exact returned
  · intro goesOn
    exact ⟨_, _, pairsUp_entries goesOn wellFormed answer⟩

/-- A hash of one field, where the callback comes to return zero. -/
theorem hash_lists_pair_iff_one :
    ∃ fields vals, PairsUp Env.plain hashKey (textArg 4 "h") oneHash fields vals :=
  (hash_lists_pair_iff Env.plain hashKey (textArg 4 "h") oneHash oneHash_wellFormed rfl).mpr
    fun _ _ => rfl

/-- Where it comes to return something else, `HGETALL` of that hash fails. -/
theorem hgetall_fails :
    ∃ (env : Env) (dict : Dict Obj) (key : Bss) (hash : Dict Bss),
      Reachable (fun _ _ => True) dict ∧ hash.WellFormed ∧
      dictLookUp dict key = some (.hash hash) ∧
      (¬ ∃ fields vals, PairsUp env dict key hash fields vals) ∧
      ∀ sh, ∃ sh', hgetallCommand env dict [key] sh = failReply dict tooLong sh' := by
  have answer : dictLookUp hashKey (textArg 4 "h") = some (.hash oneHash) := rfl
  obtain ⟨held, inside, -⟩ := (lookUp_eq_some_iff oneHash_wellFormed.toPlaced
    (textArg_arg 5 (by decide)).short).mp
      (show dictLookUp oneHash (textArg 5 "f") = some (textArg 3 "v") from rfl)
  have falls : ¬ PairsGoOn { Env.plain with fallOff := fun _ => 1 } oneHash.entries :=
    fun goesOn => Int.one_ne_zero (goesOn held inside)
  refine ⟨{ Env.plain with fallOff := fun _ => 1 }, hashKey, textArg 4 "h", oneHash,
    hashKey_reachable, oneHash_wellFormed, answer, ?_, fun sh => ?_⟩
  · rintro ⟨fields, vals, pairsUp⟩
    have returned := pairsUp.goesOn held inside (Shared.holding [])
    rw [addKeyValToArr_eq] at returned
    exact Int.one_ne_zero returned
  · obtain ⟨elems, -, fails⟩ := fillReply_addKeyVal hashKey falls
    simp only [hgetallCommand, answer]
    exact ⟨_, congrFun fails sh⟩

end PseudoRedis
