/-
This file gives the effects of the handlers on hashes, and of the two helpers that
hashes share with sets. A handler works on a dictionary inside the key space, so what is
shown first is that a change of the inner dictionary is one of the key space, whether
the inner one is edited under its key or put under a new one, as long as it is not left
empty.
-/

import PseudoRedis.Commands.StringEffects
import PseudoRedis.Commands.Hashes

namespace PseudoRedis

/-! ### Dictionaries inside the key space -/

section Inner

variable {W : Type} [Store W]

/-- The two directions of a kind belong together, and its objects are sound with what they hold. -/
structure Kind.Lawful (kind : Kind W) : Prop where
  eq_wrap : ∀ {obj inner}, kind.unwrap obj = some inner → obj = kind.wrap inner
  ids : ∀ inner, Store.ids (kind.wrap inner) = inner.ids
  ok : ∀ {E inner}, Store.Ok E (kind.wrap inner) ↔ Sound E inner ∧ (E ∨ inner.entries ≠ [])
  counted : Store.counted W

theorem Kind.hash_lawful : Kind.hash.Lawful where
  eq_wrap {obj inner} same := by
    cases obj with
    | hash dict =>
      cases same
      rfl
    | string bss => cases same
    | list entries => cases same
    | set dict => cases same
  ids _ := rfl
  ok := and_congr_left fun _ => sound_hash_iff.symm
  counted := trivial

theorem Kind.set_lawful : Kind.set.Lawful where
  eq_wrap {obj inner} same := by
    cases obj with
    | set dict =>
      cases same
      rfl
    | string bss => cases same
    | list entries => cases same
    | hash dict => cases same
  ids _ := rfl
  ok := and_congr_left fun _ => sound_set_iff.symm
  counted := trivial

variable {kind : Kind W} {env : Env} {E L : Prop} {dict : Dict Obj} {gain : List Nat} {key : Bss}

/-- An inner dictionary is sound, and the key space holds what it holds. -/
theorem Kind.Lawful.inner (lawful : kind.Lawful) (sound : Sound E dict) {inner : Dict W}
    (answer : dictLookUp dict key = some (kind.wrap inner)) :
    Sound E inner ∧ (E ∨ inner.entries ≠ []) ∧ ∀ id ∈ inner.ids, id ∈ dict.ids := by
  obtain ⟨inside, some⟩ := lawful.ok.mp (sound.lookUp answer)
  refine ⟨inside, some, fun id member => lookUp_mem_ids sound.placed.sized answer ?_⟩
  rwa [lawful.ids]

theorem Change.inPlace (lawful : kind.Lawful) (sound : Sound E dict) {inner inner' : Dict W}
    (answer : dictLookUp dict key = some (kind.wrap inner)) (change : Change E inner gain inner')
    (some : E ∨ inner'.entries ≠ []) : Change E dict gain (putBack kind dict key inner') := by
  refine Change.setVal sound answer (lawful.ok.mpr ⟨change.sound, some⟩) fun id => ?_
  rw [lawful.ids, lawful.ids]
  exact change.conserve id

omit [Store W] in
theorem putBack_self (sound : Sound E dict) {inner : Dict W}
    (answer : dictLookUp dict key = some (kind.wrap inner)) :
    putBack kind dict key inner = dict :=
  dictSetVal_self sound.placed.sized answer

omit [Store W] in
/-- The key space with a new, empty dictionary, put back edited. -/
theorem putBack_add (sound : Sound E dict) (kind : Kind W) (key : Bss) (first inner : Dict W) :
    putBack kind (dictAdd dict key (kind.wrap first)) key inner =
      dictAdd dict key (kind.wrap inner) :=
  dictSetVal_dictAdd sound.placed.sized (fun _ => rfl) key _ _

theorem newDictPow_le : newDictPow ≤ 31 := by decide

@[simp]
theorem ids_create (power : Nat) : (dictCreate power : Dict W).ids = [] := by
  rw [Dict.ids, Dict.idsWith, dictCreate_entries, List.flatMap_nil]

theorem Change.created (lawful : kind.Lawful) (sound : Sound E dict) (short : key.Short)
    {inner : Dict W} (change : Change E (dictCreate newDictPow) gain inner)
    (some : E ∨ inner.entries ≠ []) :
    Change E dict (key.id :: gain)
      (putBack kind (dictAdd dict key (kind.wrap (dictCreate newDictPow))) key inner) := by
  rw [putBack_add sound]
  refine (Change.add sound short (lawful.ok.mpr ⟨change.sound, some⟩)).mono fun id => ?_
  have conserve := change.conserve id
  rw [ids_create, List.count_nil, Nat.zero_add] at conserve
  rw [lawful.ids, List.count_cons, List.count_cons]
  exact Nat.add_le_add_right conserve _

/-! ### Dictionaries that are not empty -/

omit [Store W] in
theorem entries_of_lookUp {dict : Dict W} (sized : dict.Sized) {val : W}
    (answer : dictLookUp dict key = some val) : dict.entries ≠ [] := by
  obtain ⟨entry, others, -, found⟩ := found_of_lookUp sized answer
  intro none
  have cons := found.entries.length_eq
  rw [none] at cons
  cases cons

theorem entries_dictAdd (dict : Dict W) (sized : dict.Sized) (key : Bss) (obj : W) :
    (dictAdd dict key obj).entries ≠ [] :=
  entries_of_lookUp (dictAdd_sized sized key obj) (lookUp_dictAdd_self sized key obj)

omit [Store W] in
theorem entries_dictSetVal {dict : Dict W} (sized : dict.Sized) {old : W}
    (answer : dictLookUp dict key = some old) (new : W) :
    (dictSetVal dict key new).entries ≠ [] := by
  obtain ⟨entry, others, -, found⟩ := found_of_lookUp sized answer
  exact entries_of_lookUp (dictSetVal_sized sized key new) (found.setVal new).lookUp

/-- A dictionary whose count is not zero holds something. -/
theorem entries_of_count {inner : Dict W} (sound : Sound E inner) (counted : Store.counted W)
    (some : toSize inner.entryNum ≠ 0) : inner.entries ≠ [] := by
  intro none
  rw [sound.count counted, none] at some
  exact some rfl

end Inner

/-! ### Helpers shared with the sets -/

theorem count_le_spent (env : Env) {args : List Bss} {ids : List Nat}
    (sub : ids.Sublist (spent env args)) (id : Nat) : ids.count id ≤ (spent env args).count id :=
  sub.count_le id

variable {W : Type} [Store W] {kind : Kind W} {env : Env} {E L : Prop} {dict : Dict Obj}
  {gain : List Nat}

theorem hdelsremCommand_does (lawful : kind.Lawful) (sound : Sound E dict) (args : List Bss) :
    Does env E L dict gain none (hdelsremCommand kind dict args) := by
  unfold hdelsremCommand
  split
  · rename_i key first rest
    split
    · exact does_int (Change.refl sound gain) 0
    · rename_i valObj answer
      split
      · exact does_fail sound wrongType
      · rename_i ds unwrapped
        rw [lawful.eq_wrap unwrapped] at answer
        have deleted := delKeys_change (lawful.inner sound answer).1 (first :: rest)
        refine delCommandOn_does (fun none => by cases none) ?_
        split
        · exact (Change.rm_setVal sound answer _).mono fun _ => Nat.zero_le _
        · rename_i some
          refine (Change.inPlace lawful sound answer deleted (Or.inr ?_)).mono
            fun _ => Nat.zero_le _
          exact entries_of_count deleted.sound lawful.counted some
  · exact does_fail sound numArgs

/-- The entries of a dictionary of the key space, under an argument. -/
def innerListing (unwrap : Obj → Option (List Elem)) (dict : Dict Obj) :
    List Bss → Option Listing
  | [key] =>
      match dictLookUp dict key with
      | none => some (.encoded rplyArr [])
      | some valObj => (unwrap valObj).map (.encoded rplyArr)
  | _ => none

/-- What `HKEYS` and `SMEMBERS` list. -/
def membersListing (kind : Kind W) : Dict Obj → List Bss → Option Listing :=
  innerListing fun valObj => (kind.unwrap valObj).map fun ds => ds.entries.map keyElem

theorem keyElem_lent (env : Env) {inner : Dict W} (held : ∀ id ∈ inner.ids, id ∈ dict.ids) :
    Lent dict gain (inner.entries.map keyElem) := by
  rw [List.map_eq_flatMap]
  exact matchElems_lent env none held

omit [Store W] in
theorem dictIter_addkey (inner : Dict W) (sh : Shared) :
    dictIter inner (addkeyToArr env none) sh = (addAll sh (inner.entries.map keyElem), 0) := by
  rw [dictIter_addAll (addkeyToArr_eq env none), List.map_eq_flatMap]
  rfl

theorem hkeyssmembersCommand_does (lawful : kind.Lawful) (sound : Sound E dict) (args : List Bss) :
    Does env E L dict gain (membersListing kind dict args)
      (hkeyssmembersCommand env kind dict args) := by
  rcases args with _ | ⟨key, _ | ⟨second, rest⟩⟩
  · exact does_fail sound numArgs
  · cases answer : dictLookUp dict key with
    | none =>
      simp only [hkeyssmembersCommand, membersListing, innerListing, answer]
      exact does_fill_nothing sound
    | some valObj =>
      cases unwrapped : kind.unwrap valObj with
      | none =>
        simp only [hkeyssmembersCommand, membersListing, innerListing, answer, unwrapped]
        exact does_fail_reset sound wrongType
      | some ds =>
        simp only [hkeyssmembersCommand, membersListing, innerListing, answer, unwrapped]
        rw [lawful.eq_wrap unwrapped] at answer
        exact does_fill sound (fun sh => dictIter_addkey ds _)
          (keyElem_lent env (lawful.inner sound answer).2.2)
  · exact does_fail sound numArgs

/-! ### Reading -/

theorem hlenCommand_does (sound : Sound E dict) (args : List Bss) :
    Does env E L dict gain none (hlenCommand dict args) := by
  unfold hlenCommand
  split
  · split
    · exact does_int (Change.refl sound gain) 0
    · exact does_int (Change.refl sound gain) _
    · exact does_fail sound wrongType
  · exact does_fail sound numArgs

theorem hexistsCommand_does (sound : Sound E dict) (args : List Bss) :
    Does env E L dict gain none (hexistsCommand dict args) := by
  unfold hexistsCommand
  split
  · split
    · exact does_int (Change.refl sound gain) 0
    · exact existsCommandOn_does _ sound rfl
    · exact does_fail sound wrongType
  · exact does_fail sound numArgs

theorem hgetCommand_does (sound : Sound E dict) (args : List Bss) :
    Does env E L dict gain none (hgetCommand dict args) := by
  unfold hgetCommand
  split
  · split
    · exact does_nil sound
    · exact getCommandOn_does _ sound rfl
    · exact does_fail sound wrongType
  · exact does_fail sound numArgs

/-- What `HMGET` lists. -/
def hmgetListing (dict : Dict Obj) : List Bss → Option Listing
  | key :: first :: rest =>
      match dictLookUp dict key with
      | none => some (.encoded rplyArr ((first :: rest).map fun _ => ⟨none, strNil⟩))
      | some (.hash hash) => mgetListing hash (first :: rest)
      | some _ => none
  | _ => none

theorem hmgetCommand_does (sound : Sound E dict) (args : List Bss) :
    Does env E L dict gain (hmgetListing dict args) (hmgetCommand env dict args) := by
  rcases args with _ | ⟨key, _ | ⟨first, rest⟩⟩
  · exact does_fail sound numArgs
  · exact does_fail sound numArgs
  · cases answer : dictLookUp dict key with
    | none =>
      simp only [hmgetCommand, hmgetListing, answer]
      refine does_fill sound (fun sh => addEach_eq _ _) fun elem member => ?_
      obtain ⟨field, -, rfl⟩ := List.mem_map.mp member
      exact lent_nil dict gain
    | some valObj =>
      cases valObj with
      | hash hash =>
        simp only [hmgetCommand, hmgetListing, answer]
        obtain ⟨inside, -, held⟩ := Kind.hash_lawful.inner sound answer
        have unchanged : (fun _ : Dict Bss => dict) hash = dict := rfl
        exact mgetCommandOn_does _ sound unchanged inside.placed.sized held
      | _ =>
        simp only [hmgetCommand, hmgetListing, answer]
        exact does_fail sound wrongType

/-- The elements an entry of a hash makes. -/
def keyValElems (entry : DictEntry Bss) : List Elem :=
  [⟨some entry.key, strNormal⟩, ⟨some entry.val, strNormal⟩]

theorem addKeyValToArr_eq (env : Env) (entry : DictEntry Bss) (sh : Shared) :
    addKeyValToArr env entry sh = (addAll sh (keyValElems entry), env.fallOff entry.key.id) := by
  simp only [addKeyValToArr, addtoReplyArr_eq, keyValElems, addAll_cons]
  rfl

theorem keyValElems_lent {hash : Dict Bss} (held : ∀ id ∈ hash.ids, id ∈ dict.ids)
    {entry : DictEntry Bss} (inside : entry ∈ hash.entries) :
    Lent dict gain (keyValElems entry) := by
  intro elem member
  rcases List.mem_cons.mp member with rfl | member
  · exact lent_normal (Or.inl (held _ (key_mem_ids inside)))
  · rw [List.mem_singleton.mp member]
    refine lent_normal (Or.inl (held _ (mem_ids.mpr ⟨entry, inside, Or.inr ?_⟩)))
    exact List.mem_singleton_self _

/-- The callback falls off its end for each entry, and that comes to return zero. -/
def PairsGoOn (env : Env) (entries : List (DictEntry Bss)) : Prop :=
  ∀ entry ∈ entries, env.fallOff entry.key.id = 0

instance (env : Env) (entries : List (DictEntry Bss)) : Decidable (PairsGoOn env entries) :=
  inferInstanceAs (Decidable (∀ entry ∈ entries, env.fallOff entry.key.id = 0))

/-- Then the iteration goes on to the end. -/
theorem iterList_addKeyVal {entries : List (DictEntry Bss)} (goesOn : PairsGoOn env entries)
    (sh : Shared) :
    iterList (addKeyValToArr env) entries sh = (addAll sh (entries.flatMap keyValElems), 0) := by
  induction entries generalizing sh with
  | nil => rfl
  | cons entry rest inductionHypothesis =>
    have zero : env.fallOff entry.key.id = 0 := goesOn entry List.mem_cons_self
    rw [iterList, addKeyValToArr_eq, zero, List.flatMap_cons, addAll_append]
    exact inductionHypothesis (fun other member => goesOn other (List.mem_cons_of_mem _ member)) _

/-- Otherwise it ends at an entry whose pair is added, with what the callback came to return. -/
theorem iterList_addKeyVal_stops {entries : List (DictEntry Bss)}
    (stops : ¬ PairsGoOn env entries) :
    ∃ elems ret, elems ⊆ entries.flatMap keyValElems ∧ ret ≠ 0 ∧
      ∀ sh, iterList (addKeyValToArr env) entries sh = (addAll sh elems, ret) := by
  induction entries with
  | nil => exact absurd (fun _ member => absurd member List.not_mem_nil) stops
  | cons entry rest inductionHypothesis =>
    have first : keyValElems entry ⊆ (entry :: rest).flatMap keyValElems := by
      rw [List.flatMap_cons]
      exact List.subset_append_left _ _
    by_cases zero : env.fallOff entry.key.id = 0
    · have later : ¬ PairsGoOn env rest := fun goesOn =>
        stops (List.forall_mem_cons.mpr ⟨zero, goesOn⟩)
      obtain ⟨elems, ret, inside, failed, passes⟩ := inductionHypothesis later
      refine ⟨keyValElems entry ++ elems, ret, ?_, failed, fun sh => ?_⟩
      · rw [List.flatMap_cons] at first ⊢
        exact List.append_subset.mpr
          ⟨first, List.Subset.trans inside (List.subset_append_right _ _)⟩
      · rw [iterList, addKeyValToArr_eq, zero, addAll_append]
        exact passes _
    · refine ⟨keyValElems entry, env.fallOff entry.key.id, first, zero, fun sh => ?_⟩
      rw [iterList, addKeyValToArr_eq]
      exact if_pos zero

theorem dictIter_addKeyVal {hash : Dict Bss} (goesOn : PairsGoOn env hash.entries)
    (sh : Shared) :
    dictIter hash (addKeyValToArr env) sh = (addAll sh (hash.entries.flatMap keyValElems), 0) :=
  iterList_addKeyVal goesOn sh

/-- An iteration that ends early counts as a failure. -/
theorem fillReply_addKeyVal (dict : Dict Obj) {hash : Dict Bss}
    (stops : ¬ PairsGoOn env hash.entries) :
    ∃ elems, elems ⊆ hash.entries.flatMap keyValElems ∧
      fillReply env dict (dictIter hash (addKeyValToArr env)) =
        fun sh => failReply dict tooLong (addAll (resetReplyArr sh) elems) := by
  obtain ⟨elems, ret, inside, failed, passes⟩ := iterList_addKeyVal_stops stops
  refine ⟨elems, inside, funext fun sh => ?_⟩
  simp only [fillReply, dictIter, passes, if_pos failed]

/-- What `HGETALL` lists. -/
def hgetallElems (env : Env) : Obj → Option (List Elem)
  | .hash hash =>
      if PairsGoOn env hash.entries then some (hash.entries.flatMap keyValElems) else none
  | _ => none

def hgetallListing (env : Env) : Dict Obj → List Bss → Option Listing :=
  innerListing (hgetallElems env)

theorem hgetallCommand_does (sound : Sound E dict) (args : List Bss) :
    Does env E L dict gain (hgetallListing env dict args) (hgetallCommand env dict args) := by
  rcases args with _ | ⟨key, _ | ⟨second, rest⟩⟩
  · exact does_fail sound numArgs
  · cases answer : dictLookUp dict key with
    | none =>
      simp only [hgetallCommand, hgetallListing, innerListing, answer]
      exact does_fill_nothing sound
    | some valObj =>
      cases valObj with
      | hash hash =>
        simp only [hgetallCommand, hgetallListing, innerListing, answer, hgetallElems]
        have held := (Kind.hash_lawful.inner sound answer).2.2
        have lent : Lent dict gain (hash.entries.flatMap keyValElems) := fun elem member => by
          obtain ⟨entry, inside, listed⟩ := List.mem_flatMap.mp member
          exact keyValElems_lent held inside elem listed
        by_cases goesOn : PairsGoOn env hash.entries
        · rw [if_pos goesOn]
          exact does_fill sound (fun sh => dictIter_addKeyVal goesOn _) lent
        · rw [if_neg goesOn]
          obtain ⟨elems, inside, fails⟩ := fillReply_addKeyVal dict goesOn
          rw [fails]
          exact does_fail_filled sound (fun elem member => lent elem (inside member)) tooLong
      | _ =>
        simp only [hgetallCommand, hgetallListing, innerListing, answer, hgetallElems]
        exact does_fail_reset sound wrongType
  · exact does_fail sound numArgs

/-- What `HVALS` lists. -/
def hvalsElems : Obj → Option (List Elem)
  | .hash hash => some (hash.entries.map fun entry => ⟨some entry.val, strNormal⟩)
  | _ => none

def hvalsListing : Dict Obj → List Bss → Option Listing := innerListing hvalsElems

theorem addvalToArr_eq (entry : DictEntry Bss) (sh : Shared) :
    addvalToArr entry sh = (addAll sh [⟨some entry.val, strNormal⟩], 0) := by
  rw [addvalToArr, addtoReplyArr_eq, addAll_cons]
  rfl

theorem dictIter_addval (hash : Dict Bss) (sh : Shared) :
    dictIter hash addvalToArr sh =
      (addAll sh (hash.entries.map fun entry => ⟨some entry.val, strNormal⟩), 0) := by
  rw [dictIter_addAll addvalToArr_eq, List.map_eq_flatMap]

theorem hvalsCommand_does (sound : Sound E dict) (args : List Bss) :
    Does env E L dict gain (hvalsListing dict args) (hvalsCommand env dict args) := by
  rcases args with _ | ⟨key, _ | ⟨second, rest⟩⟩
  · exact does_fail sound numArgs
  · cases answer : dictLookUp dict key with
    | none =>
      simp only [hvalsCommand, hvalsListing, innerListing, answer]
      exact does_fill_nothing sound
    | some valObj =>
      cases valObj with
      | hash hash =>
        simp only [hvalsCommand, hvalsListing, innerListing, answer, hvalsElems]
        have held := (Kind.hash_lawful.inner sound answer).2.2
        refine does_fill sound (fun sh => dictIter_addval hash _) fun elem member => ?_
        obtain ⟨entry, inside, rfl⟩ := List.mem_map.mp member
        refine lent_normal (Or.inl (held _ (mem_ids.mpr ⟨entry, inside, Or.inr ?_⟩)))
        exact List.mem_singleton_self _
      | _ =>
        simp only [hvalsCommand, hvalsListing, innerListing, answer, hvalsElems]
        exact does_fail_reset sound wrongType
  · exact does_fail sound numArgs

/-! ### Writing -/

/-- What a handler that increments a string needs to know around it. -/
structure Around (env : Env) (E L : Prop) (outer : Dict Obj) (gain : List Nat) (invalid : Prop)
    (amount : Bss) (dict : Dict Bss) (field : Bss) (wrap : Dict Bss → Dict Obj) : Prop where
  failed : invalid ∨ dictLookUp dict field ≠ none →
    Change E outer gain (wrap dict) ∧ (L ∨ wrap dict = outer)
  added : ∀ bss : Bss, bss.id = amount.id ∨ bss.id = env.fresh → dictLookUp dict field = none →
    Change E outer gain (wrap (dictAdd dict field bss))
  changed : ∀ old bss : Bss, dictLookUp dict field = some old →
    old.id = bss.id ∨ bss.id = env.fresh → Change E outer gain (wrap (dictSetVal dict field bss))

/-- The hash is created before the number is looked at, so an invalid number leaves an empty one. -/
theorem around_new (sound : Sound E dict) {key field amount : Bss} (keyShort : key.Short)
    (fieldShort : field.Short) {invalid : Prop} (leaves : invalid → E ∧ L) :
    Around env E L dict (spent env [key, field, amount]) invalid amount (dictCreate newDictPow)
      field (putBack Kind.hash (addHash dict key) key) where
  failed reason := by
    obtain ⟨empty, leaks⟩ := leaves (reason.resolve_right fun some => some rfl)
    refine ⟨(Change.created Kind.hash_lawful sound keyShort
      (Change.refl (sound_create E newDictPow_le) []) (Or.inl empty)).mono ?_, Or.inl leaks⟩
    exact count_le_spent env (.cons_cons _ (List.nil_sublist _))
  added bss own _ := by
    have inside := sound_create (V := Bss) E newDictPow_le
    have change := Change.addString inside fieldShort bss
    refine (Change.created Kind.hash_lawful sound keyShort change
      (Or.inr (entries_dictAdd _ inside.placed.sized field bss))).mono ?_
    rcases own with same | fresh
    · rw [same]
      exact count_spent_le env [key, field, amount]
    · rw [fresh]
      exact count_le_spent env
        (.cons_cons _ (.cons_cons _ (.cons _ (.cons_cons _ (List.nil_sublist _)))))
  changed old bss answer _ := by cases answer

theorem around_old (sound : Sound E dict) {key field amount : Bss} (fieldShort : field.Short)
    {hash : Dict Bss} (answer : dictLookUp dict key = some (.hash hash)) (invalid : Prop) :
    Around env E L dict (spent env [key, field, amount]) invalid amount hash field
      (putBack Kind.hash dict key) := by
  obtain ⟨inside, -, -⟩ := Kind.hash_lawful.inner sound answer
  have unchanged : putBack Kind.hash dict key hash = dict := putBack_self sound answer
  refine ⟨fun _ => ?_, fun bss own _ => ?_, fun old bss present own => ?_⟩
  · rw [unchanged]
    exact ⟨Change.refl sound _, Or.inr rfl⟩
  · refine (Change.inPlace Kind.hash_lawful sound answer (Change.addString inside fieldShort bss)
      (Or.inr (entries_dictAdd _ inside.placed.sized field bss))).mono ?_
    rcases own with same | fresh
    · rw [same]
      exact count_le_spent env (.cons _ (.cons_cons _ (.cons_cons _ (List.nil_sublist _))))
    · rw [fresh]
      exact count_le_spent env
        (.cons _ (.cons_cons _ (.cons _ (.cons_cons _ (List.nil_sublist _)))))
  · refine Change.inPlace Kind.hash_lawful sound answer (Change.setString inside present ?_)
      (Or.inr (entries_dictSetVal inside.placed.sized present bss))
    rcases own with same | fresh
    · exact Or.inl (congrArg (fun id => [id]) same)
    · rw [fresh]
      exact Or.inr (List.mem_append_right _ List.mem_cons_self)

/-- An absent key and a number that is refused. -/
def leavesHash (invalid : Bss → Prop) (dict : Dict Obj) : List Bss → Prop
  | [key, _, amount] => dictLookUp dict key = none ∧ invalid amount
  | _ => False

/-- The number of `HINCRBY` is refused. -/
def invalidInt (amount : Bss) : Prop := (bss2int amount).2 ≠ 0

/-- The number of `HINCRBYFLOAT` is refused. -/
def invalidFloat (env : Env) (amount : Bss) : Prop := (bss2ld env amount).2 ≠ 0

theorem hincrbyCommand_does (sound : Sound E dict) {args : List Bss}
    (given : ∀ arg ∈ args, arg.Arg) (leaves : leavesHash invalidInt dict args → E ∧ L) :
    Does env E L dict (spent env args) none (hincrbyCommand env dict args) := by
  unfold hincrbyCommand
  split
  · rename_i key field amount
    have fieldShort := (given field (List.mem_cons_of_mem _ List.mem_cons_self)).short
    have increments {hash : Dict Bss} {wrap : Dict Bss → Dict Obj}
        (around : Around env E L dict (spent env [key, field, amount]) (invalidInt amount) amount
          hash field wrap) :
        Does env E L dict (spent env [key, field, amount]) none
          ((incrbyCommandOn env hash [field, amount]).within wrap) :=
      decrbyincrbyCommandOn_does posOp around.failed
        (fun bss same absent => around.added bss (Or.inl same) absent)
        (fun old bss present same =>
          around.changed old bss present (Or.inl (List.singleton_inj.mp same)))
    split
    · rename_i absent
      exact increments (around_new sound (given key List.mem_cons_self).short fieldShort
        fun invalid => leaves ⟨absent, invalid⟩)
    · rename_i hash answer
      exact increments (around_old sound fieldShort answer _)
    · exact does_fail sound wrongType
  · exact does_fail sound numArgs

theorem hincrbyfloatCommand_does (sound : Sound E dict) {args : List Bss}
    (given : ∀ arg ∈ args, arg.Arg) (leaves : leavesHash (invalidFloat env) dict args → E ∧ L) :
    Does env E L dict (spent env args) none (hincrbyfloatCommand env dict args) := by
  unfold hincrbyfloatCommand
  split
  · rename_i key field amount
    have fieldShort := (given field (List.mem_cons_of_mem _ List.mem_cons_self)).short
    have increments {hash : Dict Bss} {wrap : Dict Bss → Dict Obj}
        (around : Around env E L dict (spent env [key, field, amount]) (invalidFloat env amount)
          amount hash field wrap) :
        Does env E L dict (spent env [key, field, amount]) none
          ((incrbyfloatCommandOn env hash [field, amount]).within wrap) :=
      incrbyfloatCommandOn_does around.failed
        (fun bss fresh absent => around.added bss (Or.inr fresh) absent)
        (fun old bss present own =>
          around.changed old bss present (own.imp_left List.singleton_inj.mp))
    split
    · rename_i absent
      exact increments (around_new sound (given key List.mem_cons_self).short fieldShort
        fun invalid => leaves ⟨absent, invalid⟩)
    · rename_i hash answer
      exact increments (around_old sound fieldShort answer _)
    · exact does_fail sound wrongType
  · exact does_fail sound numArgs

theorem hdelCommand_does (sound : Sound E dict) (args : List Bss) :
    Does env E L dict gain none (hdelCommand dict args) :=
  hdelsremCommand_does Kind.hash_lawful sound args

theorem hkeysCommand_does (sound : Sound E dict) (args : List Bss) :
    Does env E L dict gain (membersListing Kind.hash dict args) (hkeysCommand env dict args) :=
  hkeyssmembersCommand_does Kind.hash_lawful sound args

/-- Setting a field of a new hash. -/
theorem newField_change (sound : Sound E dict) {key field val : Bss} (keyShort : key.Short)
    (fieldShort : field.Short) :
    Change E dict (spent env [key, field, val])
      (putBack Kind.hash (addHash dict key) key
        (dictAdd (dictCreate newDictPow : Dict Bss) field (StrObj.bssCreateObj val))) := by
  have inside := sound_create (V := Bss) E newDictPow_le
  exact (Change.created Kind.hash_lawful sound keyShort (Change.addString inside fieldShort val)
    (Or.inr (entries_dictAdd _ inside.placed.sized field _))).mono
    (count_spent_le env [key, field, val])

/-- Setting a field of a hash that is there. -/
theorem oldField_change (sound : Sound E dict) {key field val : Bss} (fieldShort : field.Short)
    {hash : Dict Bss} (answer : dictLookUp dict key = some (.hash hash)) :
    Change E dict (spent env [key, field, val])
      (putBack Kind.hash dict key (dictAdd hash field (StrObj.bssCreateObj val))) := by
  have inside := (Kind.hash_lawful.inner sound answer).1
  exact (Change.inPlace Kind.hash_lawful sound answer (Change.addString inside fieldShort val)
    (Or.inr (entries_dictAdd _ inside.placed.sized field _))).mono
    (count_le_spent env (.cons _ (.cons_cons _ (.cons_cons _ (List.nil_sublist _)))))

theorem hsetCommand_does (sound : Sound E dict) {args : List Bss}
    (given : ∀ arg ∈ args, arg.Arg) :
    Does env E L dict (spent env args) none (hsetCommand dict args) := by
  unfold hsetCommand
  split
  · rename_i key field val
    have fieldShort := (given field (List.mem_cons_of_mem _ List.mem_cons_self)).short
    split
    · exact does_int (newField_change sound (given key List.mem_cons_self).short fieldShort) 1
    · rename_i hash answer
      have change : Change E dict (spent env [key, field, val]) _ :=
        oldField_change sound fieldShort answer
      cases present : dictLookUp hash field with
      | none => exact does_int change 1
      | some old => exact does_int change 0
    · exact does_fail sound wrongType
  · exact does_fail sound numArgs

theorem hsetnxCommand_does (sound : Sound E dict) {args : List Bss}
    (given : ∀ arg ∈ args, arg.Arg) :
    Does env E L dict (spent env args) none (hsetnxCommand dict args) := by
  unfold hsetnxCommand
  split
  · rename_i key field val
    have fieldShort := (given field (List.mem_cons_of_mem _ List.mem_cons_self)).short
    split
    · exact does_int (newField_change sound (given key List.mem_cons_self).short fieldShort) 1
    · rename_i hash answer
      split
      · exact setCommandOn_does (oldField_change sound fieldShort answer)
      · exact does_int (Change.refl sound _) 0
    · exact does_fail sound wrongType
  · exact does_fail sound numArgs

theorem entries_addPairs {W : Type} [StrStore W] {dict : Dict W} (sized : dict.Sized)
    {args : List Bss} (some : dict.entries ≠ [] ∨ 2 ≤ args.length) :
    (addPairs dict args).entries ≠ [] := by
  induction dict, args using addPairs.induct with
  | case1 dict key val rest inductionHypothesis =>
    exact inductionHypothesis (dictAdd_sized sized key _) (Or.inl (entries_dictAdd _ sized key _))
  | case2 args dict other =>
    rw [addPairs]
    · refine some.resolve_right fun pair => ?_
      rcases args with _ | ⟨key, _ | ⟨val, rest⟩⟩
      · cases pair
      · exact absurd pair (by decide : ¬ 2 ≤ 1)
      · exact other key val rest rfl
    · exact other

/-- The pairs of `HMSET` are answered with `OK`, which is what the handler returns. -/
theorem setPairs_ok (hash : Dict Bss) (args : List Bss) (pair : 2 ≤ args.length)
    (wrap : Dict Bss → Dict Obj) :
    (setPairs (fun hash => returning hash 0) args hash).within wrap =
      okReply (wrap (addPairs hash args)) := by
  funext sh
  rw [Run.within, setPairs_eq]
  rcases args with _ | ⟨key, _ | ⟨val, rest⟩⟩
  · cases pair
  · exact absurd pair (by decide : ¬ 2 ≤ 1)
  · rfl

theorem hmsetCommand_does (sound : Sound E dict) {args : List Bss}
    (given : ∀ arg ∈ args, arg.Arg) :
    Does env E L dict (spent env args) none (hmsetCommand dict args) := by
  unfold hmsetCommand
  split
  · exact does_fail sound numArgs
  · rename_i enough
    split
    · exact does_fail sound numArgs
    · rename_i key rest
      have pair : 2 ≤ rest.length := by
        rw [List.length_cons] at enough
        omega
      have fields : ∀ arg ∈ rest, arg.Short := fun arg member =>
        (given arg (List.mem_cons_of_mem _ member)).short
      split
      · have inside := sound_create (V := Bss) E newDictPow_le
        rw [setPairs_ok _ _ pair]
        exact does_ok ((Change.created Kind.hash_lawful sound
          (given key List.mem_cons_self).short (addPairs_change inside fields)
          (Or.inr (entries_addPairs inside.placed.sized (Or.inr pair)))).mono
          (count_spent_le env (key :: rest)))
      · rename_i hash answer
        have inside := (Kind.hash_lawful.inner sound answer).1
        rw [setPairs_ok _ _ pair]
        refine does_ok ((Change.inPlace Kind.hash_lawful sound answer
          (addPairs_change inside fields)
          (Or.inr (entries_addPairs inside.placed.sized (Or.inr pair)))).mono fun id => ?_)
        exact Nat.le_trans (count_spent_le env rest id)
          (count_le_spent env (.cons _ (List.Sublist.refl _)) id)
      · exact does_fail sound wrongType

end PseudoRedis
