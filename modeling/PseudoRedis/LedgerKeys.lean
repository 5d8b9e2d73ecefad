/-
This file follows the commands on several keys in the ledger. Each changes the key space in
a few edits, each of one key, and the ledger is changed along with it.
-/

import PseudoRedis.AllOrNothing
import PseudoRedis.LedgerLists
import PseudoRedis.LedgerStrings
import PseudoRedis.PopPush

namespace PseudoRedis

variable {dict : Dict Obj} {ledger : Ledger} {env : Env} {key : Bss} {args : List Bss}

/-! ### Deleting and renaming -/

/-- A key is absent exactly if the ledger has nothing under it. -/
theorem Mirrors.none_iff (mirrors : Mirrors dict ledger) (short : key.Short) :
    dictLookUp dict key = none ↔ (ledger key.content).isSome = false := by
  rw [← (mirrors key short).isSome, Option.isSome_eq_false_iff, Option.isNone_iff_eq_none]

/-- `DEL` counts a key that is named twice once. -/
theorem delCommand_follows (filled : args ≠ [])
    (admitted : Admitted .del env dict ledger args) :
    Follows (delCommand dict args) (delMeaning ledger (args.map Bss.content)) := by
  obtain ⟨first, rest, rfl⟩ := List.exists_cons_of_ne_nil filled
  have short : ∀ key ∈ first :: rest, key.Short := fun key member =>
    (admitted.given key member).short
  have mirrors := admitted.keeps.holds
  obtain ⟨ran, left⟩ := @delCommand_present _ Bool _ false
    (fun there obj => there = obj.isSome) rfl (fun key => (ledger key).isSome) admitted.keeps.placed
    (fun _ keyShort => mirrors.none_iff keyShort)
    (fun key keyShort => ((mirrors key keyShort).isSome).symm) first rest short
  simp only [ne_eq, Bool.not_eq_false] at ran
  have reports : Reports (delCommand dict (first :: rest)) (delKeys dict (first :: rest)).1
      (.number ((contents (first :: rest)).filter fun key => (ledger key).isSome).card) :=
    ran ▸ reports_int _ _
  refine admitted.follows reports fun key keyShort => ?_
  have looked := lookUp_delKeys admitted.keeps.placed short keyShort
  show Known _ key (if key.content ∈ contents (first :: rest) then none else ledger key.content)
  by_cases inside : key.content ∈ contents (first :: rest)
  · rw [if_pos inside]
    exact .absent (looked.trans (if_pos inside))
  · rw [if_neg inside]
    exact (mirrors key keyShort).congr (looked.trans (if_neg inside))

/-- `RENAME` moves the value of the key; without the key it changes nothing. -/
theorem renameCommand_follows {newKey : Bss}
    (admitted : Admitted .rename env dict ledger [key, newKey]) :
    Follows (renameCommand dict [key, newKey])
      (renameMeaning ledger [key.content, newKey.content]) := by
  have short := (admitted.given key List.mem_cons_self).short
  have newShort := (admitted.given newKey (List.mem_cons_of_mem _ List.mem_cons_self)).short
  have placed := admitted.keeps.placed
  have mirrors := admitted.keeps.holds
  have known := mirrors key short
  obtain ⟨answered, map⟩ := toMap_dictRename (fun _ => rfl) placed short newShort
  rw [← lookUp_eq_toMap placed short] at answered map
  rw [renameMeaning]
  generalize value : ledger key.content = held at known
  cases known with
  | absent answer =>
    rw [if_pos answer] at answered
    have ran : renameCommand dict [key, newKey] =
        failReply (dictRename dict key newKey).1 noKey := by
      simp only [renameCommand, answered]
      exact if_pos (by decide)
    rw [dictRename_absent placed.sized answer] at ran
    have reports : Reports (renameCommand dict [key, newKey]) dict (.error noKey) :=
      ran ▸ reports_fail dict noKey
    exact admitted.reads reports
  | @present obj datum answer denotes =>
    have some : dictLookUp dict key ≠ none := answer ▸ Option.some_ne_none obj
    rw [if_neg some] at answered map
    have ran : renameCommand dict [key, newKey] = okReply (dictRename dict key newKey).1 := by
      simp only [renameCommand, answered]
      exact if_neg (not_not.mpr rfl)
    have reports : Reports (renameCommand dict [key, newKey]) (dictRename dict key newKey).1 .ok :=
      ran ▸ reports_ok _
    refine admitted.follows reports fun other otherShort => ?_
    have looked := lookUp_eq_toMap (admitted.frame reports).1.placed otherShort
    rw [map] at looked
    by_cases new : other.content = newKey.content
    · rw [new, Function.update_self] at looked ⊢
      exact .present (looked.trans answer) denotes
    · rw [Function.update_of_ne new] at looked ⊢
      by_cases old : other.content = key.content
      · rw [old, Function.update_self] at looked ⊢
        exact .absent looked
      · rw [Function.update_of_ne old] at looked ⊢
        exact (mirrors other otherShort).congr
          (looked.trans (lookUp_eq_toMap placed otherShort).symm)

/-! ### Several strings -/

/-- The element of a key is the string it holds. -/
theorem Mirrors.shown (mirrors : Mirrors dict ledger) (short : key.Short) :
    ElemShows (mgetElem dict key) ((ledger key.content).bind Datum.text) := by
  have known := mirrors key short
  rw [mgetElem]
  generalize ledger key.content = held at known
  cases known with
  | absent answer => rw [answer]; rfl
  | present answer denotes =>
    rw [answer]
    cases denotes with
    | string valShort proper => exact ⟨_, rfl, rfl, valShort⟩
    | list | hash | set => rfl

/-- `MGET` shows strings, and a nil for every other key. -/
theorem mgetCommand_follows (filled : args ≠ []) (admitted : Admitted .mget env dict ledger args) :
    Follows (mgetCommand env dict args) (mgetMeaning ledger (args.map Bss.content)) := by
  obtain ⟨first, rest, rfl⟩ := List.exists_cons_of_ne_nil filled
  have shows : List.Forall₂ ElemShows ((first :: rest).map (mgetElem dict))
      (((first :: rest).map Bss.content).map fun key => (ledger key).bind Datum.text) := by
    rw [List.map_map, List.forall₂_map_left_iff, List.forall₂_map_right_iff, List.forall₂_same]
    exact fun key member => admitted.keeps.holds.shown (admitted.given key member).short
  have reports : Reports (mgetCommand env dict (first :: rest)) dict
      (.array (((first :: rest).map Bss.content).map fun key => (ledger key).bind Datum.text)) :=
    @reports_fill _ _ env dict (fun sh => addEach sh ((first :: rest).map (mgetElem dict))) shows
      fun _ => addEach_eq _ _
  exact admitted.reads reports

/-- Whether one of the keys of the pairs is there is the same in the ledger. -/
theorem Mirrors.holdsAny (mirrors : Mirrors dict ledger) (short : ∀ arg ∈ args, arg.Short) :
    anyExists dict args = ledger.holdsAny (args.map Bss.content) := by
  induction args using argPairs.induct with
  | case1 first val rest inductionHypothesis =>
    have later : ∀ arg ∈ rest, arg.Short := fun arg member =>
      short arg (List.mem_cons_of_mem _ (List.mem_cons_of_mem _ member))
    rw [anyExists, List.map_cons, List.map_cons, Ledger.holdsAny,
      (mirrors first (short first List.mem_cons_self)).isSome, inductionHypothesis later]
  | case2 args odd =>
    rcases args with _ | ⟨first, _ | ⟨val, rest⟩⟩
    · rfl
    · rfl
    · exact absurd rfl (odd first val rest)

/-- The pairs are set one after the other. -/
theorem Mirrors.setPairs (mirrors : Mirrors dict ledger) (placed : dict.Placed)
    (given : ∀ arg ∈ args, arg.Given) :
    Mirrors (addPairs dict args) (ledger.setPairs (args.map Bss.content)) := by
  induction args using argPairs.induct generalizing dict ledger with
  | case1 first val rest inductionHypothesis =>
    have later : ∀ arg ∈ rest, arg.Given := fun arg member =>
      given arg (List.mem_cons_of_mem _ (List.mem_cons_of_mem _ member))
    have short := (given first List.mem_cons_self).short
    have valGiven := given val (List.mem_cons_of_mem _ List.mem_cons_self)
    have added := dictAdd_placed placed short (Obj.string val)
    rw [addPairs, List.map_cons, List.map_cons, Ledger.setPairs]
    refine inductionHypothesis (mirrors.update added short ?_ fun other otherShort different =>
      lookUp_dictAdd_of_ne placed short otherShort _ different) added later
    exact known_string (lookUp_added placed.sized first _) valGiven.short valGiven.proper
  | case2 args odd =>
    rcases args with _ | ⟨first, _ | ⟨val, rest⟩⟩
    · exact mirrors
    · exact mirrors
    · exact absurd rfl (odd first val rest)

/-- `MSETNX` sets all pairs or, if one of their keys is there, none. -/
theorem msetnxCommand_follows (admitted : Admitted .msetnx env dict ledger args) :
    Follows (msetnxCommand dict args) (msetnxMeaning ledger (args.map Bss.content)) := by
  have short : ∀ arg ∈ args, arg.Short := fun arg member => (admitted.given arg member).short
  have mirrors := admitted.keeps.holds
  rw [msetnxMeaning, List.length_map, ← mirrors.holdsAny short]
  by_cases odd : args.length < 2 ∨ args.length % 2 ≠ 0
  · rw [if_pos odd]
    exact admitted.refuses (if_pos odd)
  rw [if_neg odd]
  by_cases there : anyExists dict args = true
  · have ran : msetnxCommand dict args = falseReply dict := by
      rw [msetnxCommand, if_neg odd, if_pos there]
    have reports : Reports (msetnxCommand dict args) dict (.number 0) := ran ▸ reports_int dict 0
    rw [if_pos there]
    exact admitted.reads reports
  · have ran : msetnxCommand dict args = trueReply (addPairs dict args) := by
      rw [msetnxCommand, if_neg odd, if_neg there, setPairs_true]
    have reports : Reports (msetnxCommand dict args) (addPairs dict args) (.number 1) :=
      ran ▸ reports_int _ 1
    rw [if_neg there]
    exact admitted.follows reports (mirrors.setPairs admitted.keeps.placed admitted.given)

/-! ### Moving an entry -/

/-- `RPOPLPUSH` moves an entry, between two lists or within one. A destination that holds no list
makes the server stop. -/
theorem rpoplpushCommand_follows {src dst : Bss}
    (admitted : Admitted .rpoplpush env dict ledger [src, dst]) :
    Follows (rpoplpushCommand dict [src, dst])
      (rpoplpushMeaning ledger [src.content, dst.content]) := by
  have short := (admitted.given src List.mem_cons_self).short
  have dstShort := (admitted.given dst (List.mem_cons_of_mem _ List.mem_cons_self)).short
  have tidy := admitted.keeps.toTidy
  have mirrors := admitted.keeps.holds
  have known := mirrors src short
  rw [rpoplpushMeaning]
  generalize ledger src.content = held at known
  cases known with
  | absent answer =>
    have ran : rpoplpushCommand dict [src, dst] = nilReply dict := by
      simp only [rpoplpushCommand, rpoplpush, answer]
    have reports : Reports (rpoplpushCommand dict [src, dst]) dict .nil := ran ▸ reports_nil dict
    exact admitted.reads reports
  | present answer denotes =>
    have refuses : ∀ (ran : rpoplpushCommand dict [src, dst] = failReply dict wrongType),
        Follows (rpoplpushCommand dict [src, dst]) (.goesOn ledger (.error wrongType)) := by
      intro ran
      have reports : Reports (rpoplpushCommand dict [src, dst]) dict (.error wrongType) :=
        ran ▸ reports_fail dict wrongType
      exact admitted.reads reports
    cases denotes with
    | string | hash | set => exact refuses (by simp only [rpoplpushCommand, rpoplpush, answer])
    | @list entries entriesShort =>
      obtain ⟨entry, rest, popped, taken, own, others⟩ := listPop_cases .right (tidy.filled answer)
      have restShort : ∀ other ∈ rest, other.Short := fun other member =>
        entriesShort other (others other member)
      have put := putList_placed tidy.placed src rest
      have middle : Mirrors (putList dict src src rest)
          (Function.update ledger src.content (listOrGone (rest.map Bss.content))) :=
        mirrors.update put short (known_putList tidy short answer restShort)
          fun other otherShort different =>
            lookUp_putList_of_ne tidy.placed short otherShort different rest
      have target := middle dst dstShort
      simp only [taken]
      generalize Function.update ledger src.content (listOrGone (rest.map Bss.content))
        dst.content = held at target ⊢
      cases target with
      | absent found =>
        have ran : rpoplpushCommand dict [src, dst] =
            stringReply (dictAdd (putList dict src src rest) dst (.list [entry])) entry.str
              entry.len := by
          simp only [rpoplpushCommand, rpoplpush, answer, popped, found]
        have reports : Reports (rpoplpushCommand dict [src, dst]) _ (.text entry.content) :=
          ran ▸ reports_string _ (entriesShort entry own)
        refine admitted.follows reports (middle.update (dictAdd_placed put dstShort _) dstShort
          (known_list (lookUp_added put.sized dst _) ?_) fun other otherShort different =>
            lookUp_dictAdd_of_ne put dstShort otherShort _ different)
        exact List.forall_mem_singleton.mpr (entriesShort entry own)
      | present found denotes =>
        cases denotes with
        | string | hash | set =>
          -- the entry is popped already, and the refusal frees the first argument again
          have ran : rpoplpushCommand dict [src, dst] = freedTwice := by
            simp only [rpoplpushCommand, rpoplpush, answer, popped, found]
          exact congrFun ran
        | @list target targetShort =>
          have ran : rpoplpushCommand dict [src, dst] =
              stringReply (dictSetVal (putList dict src src rest) dst (.list (entry :: target)))
                entry.str entry.len := by
            simp only [rpoplpushCommand, rpoplpush, answer, popped, found]
          have reports : Reports (rpoplpushCommand dict [src, dst]) _ (.text entry.content) :=
            ran ▸ reports_string _ (entriesShort entry own)
          refine admitted.follows reports (middle.update (dictSetVal_placed put dst _) dstShort
            (known_list (lookUp_dictSetVal_self put.sized found _) ?_)
            fun other otherShort different =>
              lookUp_dictSetVal_of_ne put dstShort otherShort _ different)
          exact List.forall_mem_cons.mpr ⟨entriesShort entry own, targetShort⟩

end PseudoRedis
