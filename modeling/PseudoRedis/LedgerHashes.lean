/-
This file follows the commands on hashes and on sets in the ledger. Both are dictionaries
under a key, edited in place or added new, and removed with their last element.
-/

import PseudoRedis.Keeping

namespace PseudoRedis

variable {dict : Dict Obj} {key : Bss} {value : Option Datum} {env : Env}

/-! ### Hashes under a key -/

section Hash

variable {hash : Dict Bss} {fields : Fields} {pairs : List Bss}

/-- A well formed table stands for the fields it agrees with. -/
theorem known_hash (answer : dictLookUp dict key = some (.hash hash)) (wellFormed : hash.WellFormed)
    (agree : Matches hash fields) : Known dict key (some (.hash fields)) :=
  .present answer (.hash wellFormed agree)

/-- A new hash under a key that was absent. -/
theorem known_addedHash (tidy : Tidy dict) (short : ∀ arg ∈ pairs, arg.Short) :
    Known (dictAdd dict key (.hash (addPairs (dictCreate newDictPow) pairs))) key
      (some (.hash (insertPairs ∅ (pairs.map Bss.content)))) := by
  have created := sound_create (V := Bss) False newDictPow_le
  exact known_hash (lookUp_added tidy.sized key _)
    (sound_hash_iff.mp (addPairs_change created short).sound)
    (matches_create.addPairs created.placed short)

/-- A hash that was there, with more fields. -/
theorem known_extendedHash (tidy : Tidy dict) (answer : dictLookUp dict key = some (.hash hash))
    (wellFormed : hash.WellFormed) (agree : Matches hash fields)
    (short : ∀ arg ∈ pairs, arg.Short) :
    Known (putBack Kind.hash dict key (addPairs hash pairs)) key
      (some (.hash (insertPairs fields (pairs.map Bss.content)))) := by
  have sound : Sound False hash := sound_hash_iff.mpr wellFormed
  exact known_hash (lookUp_dictSetVal_self tidy.sized answer _)
    (sound_hash_iff.mp (addPairs_change sound short).sound)
    (agree.addPairs wellFormed.toPlaced short)

/-- A look-up finds the fields of the finite map. -/
theorem Matches.looked_iff (agree : Matches hash fields) (placed : hash.Placed) {field : Bss}
    (short : field.Short) : (dictLookUp hash field).isSome ↔ field.content ∈ fields := by
  rw [Option.isSome_iff_ne_none, ne_eq, agree.member_iff placed short, not_not]

/-! ### Setting fields -/

/-- `HSET` replies one for a field that is new, and sets it in any case. -/
theorem hsetCommand_realises (tidy : Tidy dict) (known : Known dict key value) {field val : Bss}
    (fieldGiven : field.Given) (given : val.Given) :
    Realises (hsetCommand dict [key, field, val]) key
      (hsetEdit field.content val.content value) := by
  have short : ∀ arg ∈ [field, val], arg.Short :=
    List.forall_mem_cons.mpr ⟨fieldGiven.short, List.forall_mem_singleton.mpr given.short⟩
  refine hashView.edits known (fun answer => ?_)
    (fun obj answer (other : ∀ hash, obj ≠ .hash hash) => ?_) ?_
  · have ran : hsetCommand dict [key, field, val] =
        intReply (dictAdd dict key (.hash (addPairs (dictCreate newDictPow) [field, val]))) 1 := by
      simp only [hsetCommand, answer]
      exact congrArg (intReply · 1) (putBack_add tidy.sound Kind.hash key _ _)
    exact ⟨_, ran ▸ reports_int _ 1, known_addedHash tidy short⟩
  · simpa only [hsetCommand, answer, other] using reports_fail dict wrongType
  · rintro hash fields (answer : dictLookUp dict key = some (.hash hash)) ⟨wellFormed, agree⟩
    have looked := agree.looked_iff wellFormed.toPlaced fieldGiven.short
    have ran : hsetCommand dict [key, field, val] =
        intReply (putBack Kind.hash dict key (addPairs hash [field, val]))
          (if field.content ∈ fields then 0 else 1) := by
      simp only [hsetCommand, answer, ← looked]
      cases dictLookUp hash field <;> rfl
    exact ⟨_, ran ▸ reports_int _ _, known_extendedHash tidy answer wellFormed agree short⟩

/-- `HSETNX` leaves a field that is there. It replies `OK` for a new field of an old hash, and one
for that of a new hash. -/
theorem hsetnxCommand_realises (tidy : Tidy dict) (known : Known dict key value) {field val : Bss}
    (fieldGiven : field.Given) (given : val.Given) :
    Realises (hsetnxCommand dict [key, field, val]) key
      (hsetnxEdit field.content val.content value) := by
  have short : ∀ arg ∈ [field, val], arg.Short :=
    List.forall_mem_cons.mpr ⟨fieldGiven.short, List.forall_mem_singleton.mpr given.short⟩
  refine hashView.edits known (fun answer => ?_)
    (fun obj answer (other : ∀ hash, obj ≠ .hash hash) => ?_) ?_
  · have ran : hsetnxCommand dict [key, field, val] =
        intReply (dictAdd dict key (.hash (addPairs (dictCreate newDictPow) [field, val]))) 1 := by
      simp only [hsetnxCommand, answer]
      exact congrArg (intReply · 1) (putBack_add tidy.sound Kind.hash key _ _)
    exact ⟨_, ran ▸ reports_int _ 1, known_addedHash tidy short⟩
  · simpa only [hsetnxCommand, answer, other] using reports_fail dict wrongType
  · rintro hash fields (answer : dictLookUp dict key = some (.hash hash)) ⟨wellFormed, agree⟩
    have looked := agree.looked_iff wellFormed.toPlaced fieldGiven.short
    cases found : dictLookUp hash field with
    | none =>
      have ran : hsetnxCommand dict [key, field, val] =
          okReply (putBack Kind.hash dict key (addPairs hash [field, val])) := by
        simp only [hsetnxCommand, answer, found]
        rfl
      rw [found] at looked
      rw [if_neg (looked.not.mp Bool.false_ne_true), ran]
      exact ⟨_, reports_ok _, known_extendedHash tidy answer wellFormed agree short⟩
    | some old =>
      have ran : hsetnxCommand dict [key, field, val] = falseReply dict := by
        simp only [hsetnxCommand, answer, found]
      rw [found] at looked
      rw [if_pos (looked.mp rfl), ran]
      exact realises_same (known_hash answer wellFormed agree) (reports_int dict 0)

/-- `HMSET` with complete pairs sets them in order. -/
theorem hmsetCommand_realises (tidy : Tidy dict) (known : Known dict key value)
    (pair : 2 ≤ pairs.length) (even : pairs.length % 2 = 0) (given : ∀ arg ∈ pairs, arg.Given) :
    Realises (hmsetCommand dict (key :: pairs)) key (hmsetEdit (pairs.map Bss.content) value) := by
  have short : ∀ arg ∈ pairs, arg.Short := fun arg member => (given arg member).short
  have enough : ¬ ((key :: pairs).length < 3 ∨ (key :: pairs).length % 2 ≠ 1) := by
    rw [List.length_cons]
    omega
  rw [hmsetCommand, if_neg enough]
  refine hashView.edits known (fun answer => ?_)
    (fun obj answer (other : ∀ hash, obj ≠ .hash hash) => ?_) ?_
  · have ran : putBack Kind.hash (addHash dict key) key (addPairs (dictCreate newDictPow) pairs) =
        dictAdd dict key (.hash (addPairs (dictCreate newDictPow) pairs)) :=
      putBack_add tidy.sound Kind.hash key _ _
    simp only [answer]
    rw [setPairs_ok _ _ pair, ran]
    exact ⟨_, reports_ok _, known_addedHash tidy short⟩
  · simpa only [answer, other] using reports_fail dict wrongType
  · rintro hash fields (answer : dictLookUp dict key = some (.hash hash)) ⟨wellFormed, agree⟩
    simp only [answer]
    rw [setPairs_ok _ _ pair]
    exact ⟨_, reports_ok _, known_extendedHash tidy answer wellFormed agree short⟩

/-! ### Reading fields -/

/-- What a hash has under a field. -/
theorem Matches.fieldValue (agree : Matches hash fields) {field : Bss} (short : field.Short) :
    (dictLookUp hash field = none ∧ fields.lookup field.content = none) ∨
      ∃ val, dictLookUp hash field = some val ∧ val.Short ∧
        fields.lookup field.content = some val.content := by
  have own := agree.vals field short
  generalize dictLookUp hash field = found, fields.lookup field.content = known at own
  cases own with
  | none => exact Or.inl ⟨rfl, rfl⟩
  | @some val _ carries =>
    obtain ⟨rfl, short⟩ := carries
    exact Or.inr ⟨val, rfl, short, rfl⟩

/-- The values of fields fill the array. -/
theorem Matches.shown (agree : Matches hash fields) {wanted : List Bss}
    (short : ∀ field ∈ wanted, field.Short) :
    List.Forall₂ ElemShows (wanted.map (mgetElem hash))
      ((wanted.map Bss.content).map fun field => fields.lookup field) := by
  rw [List.map_map, List.forall₂_map_left_iff, List.forall₂_map_right_iff, List.forall₂_same]
  exact fun field member => agree.shows (short field member)

/-- `HGET` replies a nil without the field, as it does without the key. -/
theorem hgetCommand_realises (known : Known dict key value) {field : Bss} (given : field.Given) :
    Realises (hgetCommand dict [key, field]) key (hgetEdit field.content value) := by
  refine hashView.reads known (fun answer => ?_)
    (fun obj answer (other : ∀ hash, obj ≠ .hash hash) => ?_) ?_
  · simpa only [hgetCommand, answer] using reports_nil dict
  · simpa only [hgetCommand, answer, other] using reports_fail dict wrongType
  · rintro hash fields (answer : dictLookUp dict key = some (.hash hash)) ⟨wellFormed, agree⟩
    rcases agree.fieldValue given.short with ⟨found, none⟩ | ⟨val, found, short, some⟩
    · have ran : hgetCommand dict [key, field] = nilReply dict := by
        simp only [hgetCommand, getCommandOn, answer, found]
        rfl
      rw [none, ran]
      exact reports_nil dict
    · have ran : hgetCommand dict [key, field] = stringReply dict val.str val.len := by
        simp only [hgetCommand, getCommandOn, answer, found]
        exact within_string hash val.str val.len _
      rw [some, ran]
      exact reports_string dict short

/-- `HMGET` shows a nil for every field that is missing, and nils alone without the key. -/
theorem hmgetCommand_realises (known : Known dict key value) {wanted : List Bss}
    (filled : wanted ≠ []) (given : ∀ arg ∈ wanted, arg.Given) :
    Realises (hmgetCommand env dict (key :: wanted)) key
      (hmgetEdit (wanted.map Bss.content) value) := by
  obtain ⟨first, rest, rfl⟩ := List.exists_cons_of_ne_nil filled
  refine hashView.reads known (fun answer => ?_)
    (fun obj answer (other : ∀ hash, obj ≠ .hash hash) => ?_) ?_
  · have shows : List.Forall₂ ElemShows ((first :: rest).map fun _ => ⟨none, strNil⟩)
        (((first :: rest).map Bss.content).map fun _ => none) := by
      rw [List.map_map, List.forall₂_map_left_iff, List.forall₂_map_right_iff, List.forall₂_same]
      exact fun _ _ => rfl
    simpa only [hmgetCommand, answer] using reports_fill env dict shows fun _ => addEach_eq _ _
  · simpa only [hmgetCommand, answer, other] using reports_fail dict wrongType
  · rintro hash fields (answer : dictLookUp dict key = some (.hash hash)) ⟨wellFormed, agree⟩
    have ran : hmgetCommand env dict (key :: first :: rest) = fillReply env dict fun sh =>
        addEach sh ((first :: rest).map (mgetElem hash)) := by
      simp only [hmgetCommand, answer]
      exact within_fillReply env hash
        (fun sh => addEach sh ((first :: rest).map (mgetElem hash))) _
    rw [ran]
    exact reports_fill env dict (agree.shown fun field member => (given field member).short)
      fun _ => addEach_eq _ _

/-- `HEXISTS` looks the field up. -/
theorem hexistsCommand_realises (known : Known dict key value) {field : Bss} (given : field.Given) :
    Realises (hexistsCommand dict [key, field]) key (hexistsEdit field.content value) := by
  refine hashView.reads known (fun answer => ?_)
    (fun obj answer (other : ∀ hash, obj ≠ .hash hash) => ?_) ?_
  · simpa only [hexistsCommand, answer, falseReply] using reports_int dict 0
  · simpa only [hexistsCommand, answer, other] using reports_fail dict wrongType
  · rintro hash fields (answer : dictLookUp dict key = some (.hash hash)) ⟨wellFormed, agree⟩
    have looked := agree.looked_iff wellFormed.toPlaced given.short
    have ran : hexistsCommand dict [key, field] =
        intReply dict (if field.content ∈ fields then 1 else 0) := by
      simp only [hexistsCommand, existsCommandOn, answer, ← looked]
      cases dictLookUp hash field <;> rfl
    exact ran ▸ reports_int dict _

/-- `HLEN` replies the counter of the table, which is the number of fields. -/
theorem hlenCommand_realises (known : Known dict key value) :
    Realises (hlenCommand dict [key]) key (hlenEdit value) := by
  refine hashView.reads known (fun answer => ?_)
    (fun obj answer (other : ∀ hash, obj ≠ .hash hash) => ?_) ?_
  · simpa only [hlenCommand, answer, falseReply] using reports_int dict 0
  · simpa only [hlenCommand, answer, other] using reports_fail dict wrongType
  · rintro hash fields (answer : dictLookUp dict key = some (.hash hash)) ⟨wellFormed, agree⟩
    rw [← agree.keys, card_members wellFormed.toPlaced, ← wellFormed.count]
    simpa only [hlenCommand, answer] using reports_int dict hash.entryNum

end Hash

/-! ### Deleting elements -/

/-- What is left of an inner dictionary is under the key, unless nothing is. -/
theorem hdelsremCommand_run {W : Type} [Store W] {kind : Kind W} (lawful : kind.Lawful)
    {inner : Dict W} (unwrapped : kind.unwrap (kind.wrap inner) = some inner) (tidy : Tidy dict)
    (keyShort : key.Short) (answer : dictLookUp dict key = some (kind.wrap inner))
    (sound : Sound False inner) {gone : List Bss} (filled : gone ≠ [])
    (short : ∀ arg ∈ gone, arg.Short) :
    ∃ dict', hdelsremCommand kind dict (key :: gone) =
        intReply dict' (contents gone ∩ members inner).card ∧
      dictLookUp dict' key = if (delKeys inner gone).1.entries = [] then none
        else some (kind.wrap (delKeys inner gone).1) := by
  obtain ⟨first, rest, rfl⟩ := List.exists_cons_of_ne_nil filled
  have wide : ∀ id ∈ dict.ids, id < 2 ^ 64 := fun id member =>
    Nat.lt_trans (tidy.addressed id member) (by decide)
  obtain ⟨dict', ran, -, own, -⟩ := hdelsremCommand_change lawful unwrapped tidy.sound tidy.once
    wide keyShort answer sound short
  exact ⟨dict', ran.trans (by rw [(delKeys_members sound.placed short).2]), own⟩

/-- `HDEL` removes the key along with its last field. -/
theorem hdelCommand_realises (tidy : Tidy dict) (keyShort : key.Short)
    (known : Known dict key value) {gone : List Bss} (filled : gone ≠ [])
    (given : ∀ arg ∈ gone, arg.Given) :
    Realises (hdelCommand dict (key :: gone)) key (hdelEdit (gone.map Bss.content) value) := by
  have short : ∀ arg ∈ gone, arg.Short := fun arg member => (given arg member).short
  refine hashView.edits known (fun answer => ?_)
    (fun obj answer (other : ∀ hash, obj ≠ .hash hash) => ?_) ?_
  · have ran : hdelCommand dict (key :: gone) = falseReply dict := by
      obtain ⟨first, rest, rfl⟩ := List.exists_cons_of_ne_nil filled
      simp only [hdelCommand, hdelsremCommand, answer]
    exact realises_same (.absent answer) (ran ▸ reports_int dict 0)
  · obtain ⟨first, rest, rfl⟩ := List.exists_cons_of_ne_nil filled
    have none : Kind.hash.unwrap obj = none := by
      cases obj with
      | hash hash => exact absurd rfl (other hash)
      | string | list | set => rfl
    simpa only [hdelCommand, hdelsremCommand, answer, none] using reports_fail dict wrongType
  · rintro hash fields (answer : dictLookUp dict key = some (.hash hash)) ⟨wellFormed, agree⟩
    have sound : Sound False hash := sound_hash_iff.mpr wellFormed
    have left := agree.delKeys wellFormed.toPlaced short
    obtain ⟨dict', ran, own⟩ := hdelsremCommand_run Kind.hash_lawful rfl tidy keyShort answer sound
      filled short
    rw [agree.keys] at ran
    refine ⟨dict', ?_, ?_⟩
    · rw [hdelCommand, ran]
      exact reports_int dict' _
    by_cases empty : (delKeys hash gone).1.entries = []
    · rw [hashOrGone, if_pos (left.empty_iff.mp empty)]
      exact .absent (own.trans (if_pos empty))
    · rw [hashOrGone, if_neg (mt left.empty_iff.mpr empty)]
      exact known_hash (own.trans (if_neg empty))
        (sound_hash_iff.mp (delKeys_change sound gone).sound) left

/-! ### Sets -/

section Set

variable {set : Dict Unit} {new gone : List Bss}

/-- A well formed table stands for the set of its members. -/
theorem known_set (answer : dictLookUp dict key = some (.set set)) (wellFormed : set.WellFormed) :
    Known dict key (some (.set (members set))) := .present answer (.set wellFormed)

/-- `SADD` replies how many of the members are new. -/
theorem saddCommand_realises (tidy : Tidy dict) (known : Known dict key value) (filled : new ≠ [])
    (given : ∀ arg ∈ new, arg.Given) :
    Realises (saddCommand dict (key :: new)) key (saddEdit (new.map Bss.content) value) := by
  obtain ⟨first, rest, rfl⟩ := List.exists_cons_of_ne_nil filled
  have short : ∀ arg ∈ first :: rest, arg.Short := fun arg member => (given arg member).short
  refine setView.edits known (fun answer => ?_)
    (fun obj answer (other : ∀ set, obj ≠ .set set) => ?_) ?_
  · have created : Sound False (dictCreate newDictPow : Dict Unit) :=
      sound_create False newDictPow_le
    obtain ⟨whole, count⟩ := addMembers_members (sound_set_iff.mp created) short
    rw [members_create, Finset.empty_union] at whole
    rw [members_create, Finset.sdiff_empty] at count
    have known' := known_set (lookUp_added tidy.sized key _)
      (sound_set_iff.mp (addMembers_change created short).sound)
    rw [whole] at known'
    refine ⟨_, ?_, known'⟩
    rw [saddCommand_absent tidy.sized answer, count]
    exact reports_int _ _
  · simpa only [saddCommand, answer, other] using reports_fail dict wrongType
  · rintro set _ (answer : dictLookUp dict key = some (.set set)) ⟨wellFormed, rfl⟩
    have sound : Sound False set := sound_set_iff.mpr wellFormed
    obtain ⟨whole, count⟩ := addMembers_members wellFormed short
    have known' := known_set (lookUp_dictSetVal_self tidy.sized answer _)
      (sound_set_iff.mp (addMembers_change sound short).sound)
    rw [whole] at known'
    refine ⟨_, ?_, known'⟩
    rw [saddCommand_present answer, count]
    exact reports_int _ _

/-- `SREM` removes the key along with its last member. -/
theorem sremCommand_realises (tidy : Tidy dict) (keyShort : key.Short)
    (known : Known dict key value) (filled : gone ≠ []) (given : ∀ arg ∈ gone, arg.Given) :
    Realises (sremCommand dict (key :: gone)) key (sremEdit (gone.map Bss.content) value) := by
  have short : ∀ arg ∈ gone, arg.Short := fun arg member => (given arg member).short
  refine setView.edits known (fun answer => ?_)
    (fun obj answer (other : ∀ set, obj ≠ .set set) => ?_) ?_
  · have ran : sremCommand dict (key :: gone) = falseReply dict := by
      obtain ⟨first, rest, rfl⟩ := List.exists_cons_of_ne_nil filled
      simp only [sremCommand, hdelsremCommand, answer]
    exact realises_same (.absent answer) (ran ▸ reports_int dict 0)
  · obtain ⟨first, rest, rfl⟩ := List.exists_cons_of_ne_nil filled
    have none : Kind.set.unwrap obj = none := by
      cases obj with
      | set set => exact absurd rfl (other set)
      | string | list | hash => rfl
    simpa only [sremCommand, hdelsremCommand, answer, none] using reports_fail dict wrongType
  · rintro set _ (answer : dictLookUp dict key = some (.set set)) ⟨wellFormed, rfl⟩
    have sound : Sound False set := sound_set_iff.mpr wellFormed
    have left := (delKeys_members wellFormed.toPlaced short).1
    obtain ⟨dict', ran, own⟩ := hdelsremCommand_run Kind.set_lawful rfl tidy keyShort answer sound
      filled short
    refine ⟨dict', ?_, ?_⟩
    · rw [sremCommand, ran]
      exact reports_int dict' _
    show Known dict' key (setOrGone (members set \ contents gone))
    rw [← left]
    by_cases empty : (delKeys set gone).1.entries = []
    · rw [setOrGone, if_pos ((members_nonempty_iff _).mpr empty)]
      exact .absent (own.trans (if_pos empty))
    · rw [setOrGone, if_neg (mt (members_nonempty_iff _).mp empty)]
      exact known_set (own.trans (if_neg empty))
        (sound_set_iff.mp (delKeys_change sound gone).sound)

theorem scardCommand_realises (known : Known dict key value) :
    Realises (scardCommand dict [key]) key (scardEdit value) := by
  refine setView.reads known (fun answer => ?_)
    (fun obj answer (other : ∀ set, obj ≠ .set set) => ?_) ?_
  · simpa only [scardCommand, answer, falseReply] using reports_int dict 0
  · simpa only [scardCommand, answer, other] using reports_fail dict wrongType
  · rintro set _ (answer : dictLookUp dict key = some (.set set)) ⟨wellFormed, rfl⟩
    rw [card_members wellFormed.toPlaced, ← wellFormed.count]
    simpa only [scardCommand, answer] using reports_int dict set.entryNum

theorem sismemberCommand_realises (known : Known dict key value) {member : Bss}
    (given : member.Given) :
    Realises (sismemberCommand dict [key, member]) key (sismemberEdit member.content value) := by
  refine setView.reads known (fun answer => ?_)
    (fun obj answer (other : ∀ set, obj ≠ .set set) => ?_) ?_
  · simpa only [sismemberCommand, answer, falseReply] using reports_int dict 0
  · simpa only [sismemberCommand, answer, other] using reports_fail dict wrongType
  · rintro set _ (answer : dictLookUp dict key = some (.set set)) ⟨wellFormed, rfl⟩
    have ran : sismemberCommand dict [key, member] =
        intReply dict (if member.content ∈ members set then 1 else 0) := by
      simp only [sismemberCommand, answer, ← lookUp_member_iff wellFormed.toPlaced given.short]
      cases dictLookUp set member <;> rfl
    exact ran ▸ reports_int dict _

end Set

end PseudoRedis
