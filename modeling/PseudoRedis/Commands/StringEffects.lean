/-
This file gives the effects of the handlers on keys and strings. A handler that takes
its dictionary is read with a `wrap` around it, which is the identity for the key space
and puts a hash back under its key for the fields of a hash: what has to be known is the
change the wrapped dictionary makes outside.
-/

import PseudoRedis.Effects
import PseudoRedis.Commands.Strings

namespace PseudoRedis

/-! ### Arguments -/

/-- A string as `parse_args` makes it: no longer than the request, and its area holds it. -/
structure Bss.Arg (bss : Bss) : Prop where
  len_le : bss.len ≤ maxRplySize
  area : bss.len ≤ bss.str.length

theorem Bss.Arg.short {bss : Bss} (arg : bss.Arg) : bss.Short :=
  ⟨Nat.lt_of_le_of_lt arg.len_le (by decide), arg.area⟩

/-- What a handler is given: its arguments, and the two allocations it can make. -/
def spent (env : Env) (args : List Bss) : List Nat :=
  args.map Bss.id ++ [env.fresh, env.fresh + 1]

variable {V : Type} [Store V]
variable {env : Env} {E L : Prop} {outer : Dict V} {gain : List Nat}

/-! ### Keys -/

theorem delKeys_change {dict : Dict V} (sound : Sound E dict) (keys : List Bss) :
    Change E dict [] (delKeys dict keys).1 := by
  induction keys generalizing dict with
  | nil => exact Change.refl sound []
  | cons key rest inductionHypothesis =>
    have first := Change.rm sound key
    exact first.trans (inductionHypothesis first.sound)

variable {W : Type}

theorem delCommandOn_does {dict : Dict W} {args : List Bss} {wrap : Dict W → Dict V}
    (failed : args = [] → Change E outer gain (wrap dict) ∧ (L ∨ wrap dict = outer))
    (deleted : Change E outer gain (wrap (delKeys dict args).1)) :
    Does env E L outer gain none ((delCommandOn dict args).within wrap) := by
  unfold delCommandOn
  split
  · obtain ⟨change, same⟩ := failed rfl
    rw [within_fail]
    exact does_fail_change change same numArgs
  · exact does_int deleted _

theorem existsCommandOn_does {dict : Dict W} (args : List Bss) {wrap : Dict W → Dict V}
    (sound : Sound E outer) (same : wrap dict = outer) :
    Does env E L outer gain none ((existsCommandOn dict args).within wrap) := by
  subst same
  unfold existsCommandOn
  split
  · split
    · exact does_int (Change.refl sound gain) 0
    · exact does_int (Change.refl sound gain) 1
  · rw [within_fail]
    exact does_fail sound numArgs

theorem randomkeyCommandOn_does {dict : Dict W} (args : List Bss) {wrap : Dict W → Dict V}
    (sound : Sound E outer) (same : wrap dict = outer) :
    Does env E L outer gain none ((randomkeyCommandOn env dict args).within wrap) := by
  subst same
  unfold randomkeyCommandOn
  split
  · split
    · exact does_nil sound
    · split
      · exact does_fault _ gain
      · rw [within_string]
        exact does_string (Change.refl sound gain) _ _ fun _ => Or.inr rfl
  · rw [within_fail]
    exact does_fail sound numArgs

/-- A callback that adds elements is never stopped. -/
theorem dictIter_addAll {dict : Dict W} {func : DictEntry W → Shared → Shared × Int}
    {elems : DictEntry W → List Elem}
    (adds : ∀ entry sh, func entry sh = (addAll sh (elems entry), 0)) (sh : Shared) :
    dictIter dict func sh = (addAll sh (dict.entries.flatMap elems), 0) := by
  rw [dictIter]
  generalize dict.entries = entries
  induction entries generalizing sh with
  | nil => rfl
  | cons entry rest inductionHypothesis =>
    rw [iterList, adds, List.flatMap_cons, addAll_append]
    exact inductionHypothesis _

/-- The element a key makes. -/
def keyElem (entry : DictEntry W) : Elem := ⟨some entry.key, strNormal⟩

/-- The elements `addkey_to_arr` adds for an entry. -/
def matchElems (env : Env) (pattern : Option Bytes) (entry : DictEntry W) : List Elem :=
  match pattern with
  | none => [keyElem entry]
  | some pattern =>
      if env.fnmatch (cstring pattern) (cstring entry.key.str) then [keyElem entry] else []

theorem addkeyToArr_eq (env : Env) (pattern : Option Bytes) (entry : DictEntry W) (sh : Shared) :
    addkeyToArr env pattern entry sh = (addAll sh (matchElems env pattern entry), 0) := by
  have added : addtoReplyArr sh (some entry.key) strNormal = (addAll sh [keyElem entry], 0) := by
    rw [addtoReplyArr_eq, addAll_cons]
    rfl
  cases pattern with
  | none => exact added
  | some pattern =>
    rw [addkeyToArr, matchElems]
    split
    · exact added
    · rfl

/-- What `KEYS` lists. -/
def keysListing (env : Env) (dict : Dict Obj) : List Bss → Option Listing
  | [pattern] => some (.encoded rplyArr (dict.entries.flatMap (matchElems env (some pattern.str))))
  | _ => none

/-- An element that shows a held string and leaves it alone. -/
theorem lent_shown {dict : Dict V} {gain : List Nat} {bss : Bss} {tag : UInt8}
    (string : ¬ (strNil &&& tag ≠ 0)) (kept : ¬ (tag &&& needFree ≠ 0))
    (held : bss.id ∈ dict.ids ∨ bss.id ∈ gain) :
    (⟨some bss, tag⟩ : Elem).freed = [] ∧
      ∀ id ∈ (⟨some bss, tag⟩ : Elem).read, id ∈ dict.ids ∨ id ∈ gain := by
  constructor
  · simp only [Elem.freed, if_neg string, if_neg kept]
  · intro id member
    simp only [Elem.read, if_neg string] at member
    rw [List.mem_singleton.mp (show id ∈ [bss.id] from member)]
    exact held

theorem lent_normal {dict : Dict V} {gain : List Nat} {bss : Bss}
    (held : bss.id ∈ dict.ids ∨ bss.id ∈ gain) :
    (⟨some bss, strNormal⟩ : Elem).freed = [] ∧
      ∀ id ∈ (⟨some bss, strNormal⟩ : Elem).read, id ∈ dict.ids ∨ id ∈ gain :=
  lent_shown (by decide) (by decide) held

theorem matchElems_key {pattern : Option Bytes} {entry : DictEntry W} {elem : Elem}
    (listed : elem ∈ matchElems env pattern entry) : elem = keyElem entry := by
  unfold matchElems at listed
  split at listed
  · exact List.mem_singleton.mp listed
  · split at listed
    · exact List.mem_singleton.mp listed
    · cases listed

theorem matchElems_lent (env : Env) (pattern : Option Bytes) {inner : Dict W} [Store W]
    {dict : Dict V} {gain : List Nat} (held : ∀ id ∈ inner.ids, id ∈ dict.ids) :
    Lent dict gain (inner.entries.flatMap (matchElems env pattern)) := by
  intro elem member
  obtain ⟨entry, inside, listed⟩ := List.mem_flatMap.mp member
  rw [matchElems_key listed]
  exact lent_normal (Or.inl (held _ (key_mem_ids inside)))

theorem lent_nil (dict : Dict V) (gain : List Nat) :
    (⟨none, strNil⟩ : Elem).freed = [] ∧
      ∀ id ∈ (⟨none, strNil⟩ : Elem).read, id ∈ dict.ids ∨ id ∈ gain :=
  ⟨rfl, fun _ member => by cases member⟩

variable {dict : Dict Obj}

theorem delCommand_does (sound : Sound E dict) (args : List Bss) :
    Does env E L dict gain none (delCommand dict args) := by
  rw [delCommand, ← within_id (delCommandOn dict args)]
  refine delCommandOn_does (fun _ => ⟨Change.refl sound gain, Or.inr rfl⟩) ?_
  exact (delKeys_change sound args).mono fun _ => Nat.zero_le _

theorem existsCommand_does (sound : Sound E dict) (args : List Bss) :
    Does env E L dict gain none (existsCommand dict args) := by
  rw [existsCommand, ← within_id (existsCommandOn dict args)]
  exact existsCommandOn_does args sound rfl

theorem keysCommand_does (sound : Sound E dict) (args : List Bss) :
    Does env E L dict gain (keysListing env dict args) (keysCommand env dict args) := by
  rcases args with _ | ⟨pattern, _ | ⟨second, rest⟩⟩
  · exact does_fail sound numArgs
  · exact does_fill sound (fun _ => dictIter_addAll (addkeyToArr_eq env _) _)
      (matchElems_lent env _ fun _ member => member)
  · exact does_fail sound numArgs

theorem renameCommand_does (sound : Sound E dict) {args : List Bss}
    (given : ∀ arg ∈ args, arg.Arg) :
    Does env E L dict (spent env args) none (renameCommand dict args) := by
  unfold renameCommand
  split
  · rename_i key newKey
    obtain ⟨change, same⟩ := Change.rename sound key
      (given newKey (List.mem_cons_of_mem _ List.mem_cons_self)).short (fun _ => rfl) id
    have grown : Change E dict (spent env [key, newKey]) (dictRename dict key newKey).1 := by
      refine change.mono fun id => ?_
      simp only [spent, List.map_cons, List.cons_append, List.count_cons, List.count_nil]
      omega
    split
    rename_i dict' ret renamed
    rw [renamed] at grown same
    split
    · rename_i failed
      exact does_fail_change grown (Or.inr (same failed)) noKey
    · exact does_ok grown
  · exact does_fail sound numArgs

theorem typeCommand_does (sound : Sound E dict) (args : List Bss) :
    Does env E L dict gain none (typeCommand dict args) := by
  unfold typeCommand
  split
  · exact does_type sound _
  · exact does_fail sound numArgs

theorem randomkeyCommand_does (sound : Sound E dict) (args : List Bss) :
    Does env E L dict gain none (randomkeyCommand env dict args) := by
  rw [randomkeyCommand, ← within_id (randomkeyCommandOn env dict args)]
  exact randomkeyCommandOn_does args sound rfl

/-! ### Values -/

variable [StrStore W]

theorem getCommandOn_does {dict : Dict W} (args : List Bss) {wrap : Dict W → Dict V}
    (sound : Sound E outer) (same : wrap dict = outer) :
    Does env E L outer gain none ((getCommandOn dict args).within wrap) := by
  subst same
  unfold getCommandOn
  split
  · split
    · split
      · rw [within_string]
        exact does_string (Change.refl sound gain) _ _ fun _ => Or.inr rfl
      · rw [within_fail]
        exact does_fail sound wrongType
    · exact does_nil sound
  · rw [within_fail]
    exact does_fail sound numArgs

theorem setCommandOn_does {dict : Dict W} {key val : Bss} {wrap : Dict W → Dict V}
    (change : Change E outer gain (wrap (dictAdd dict key (StrObj.bssCreateObj val)))) :
    Does env E L outer gain none ((setCommandOn dict [key, val]).within wrap) :=
  does_ok change

/-- The addition of a string under an argument. -/
theorem Change.addString {dict : Dict W} (sound : Sound E dict) {key : Bss} (short : key.Short)
    (val : Bss) :
    Change E dict [key.id, val.id] (dictAdd dict key (StrObj.bssCreateObj val)) := by
  have change := Change.add sound short (StrStore.ok_create E val)
  rwa [StrStore.ids_create] at change

theorem mgetElem_lent {dict : Dict W} (sized : dict.Sized) (held : ∀ id ∈ dict.ids, id ∈ outer.ids)
    (key : Bss) :
    (mgetElem dict key).freed = [] ∧
      ∀ id ∈ (mgetElem dict key).read, id ∈ outer.ids ∨ id ∈ gain := by
  unfold mgetElem
  split
  · rename_i bss answer
    obtain ⟨val, lookedUp, string⟩ := Option.bind_eq_some_iff.mp answer
    refine lent_normal (Or.inl (held _ (lookUp_mem_ids sized lookedUp ?_)))
    rw [StrStore.ids_string string]
    exact List.mem_singleton_self _
  · exact lent_nil outer gain

/-- What `MGET` lists. -/
def mgetListing (dict : Dict W) : List Bss → Option Listing
  | [] => none
  | key :: rest => some (.encoded rplyArr ((key :: rest).map (mgetElem dict)))

theorem mgetCommandOn_does {dict : Dict W} (args : List Bss) {wrap : Dict W → Dict V}
    (sound : Sound E outer) (same : wrap dict = outer) (sized : dict.Sized)
    (held : ∀ id ∈ dict.ids, id ∈ outer.ids) :
    Does env E L outer gain (mgetListing dict args)
      ((mgetCommandOn env dict args).within wrap) := by
  subst same
  cases args with
  | nil =>
    rw [mgetCommandOn, within_fail]
    exact does_fail sound numArgs
  | cons key rest =>
    rw [mgetCommandOn, within_fillReply]
    refine does_fill sound (fun sh => addEach_eq _ _) fun elem member => ?_
    obtain ⟨key, -, rfl⟩ := List.mem_map.mp member
    exact mgetElem_lent sized held key

theorem getCommand_does (sound : Sound E dict) (args : List Bss) :
    Does env E L dict gain none (getCommand dict args) := by
  rw [getCommand, ← within_id (getCommandOn dict args)]
  exact getCommandOn_does args sound rfl

theorem mgetCommand_does (sound : Sound E dict) (args : List Bss) :
    Does env E L dict gain (mgetListing dict args) (mgetCommand env dict args) := by
  rw [mgetCommand, ← within_id (mgetCommandOn env dict args)]
  exact mgetCommandOn_does args sound rfl sound.placed.sized fun _ member => member

theorem setCommand_does (sound : Sound E dict) {args : List Bss}
    (given : ∀ arg ∈ args, arg.Arg) :
    Does env E L dict (spent env args) none (setCommand dict args) := by
  unfold setCommand setCommandOn
  split
  · rename_i key val
    refine does_ok ((Change.addString sound (given key List.mem_cons_self).short _).mono
      fun id => ?_)
    rw [spent, List.count_append]
    exact Nat.le_add_right _ _
  · exact does_fail sound numArgs

theorem setnxCommand_does (sound : Sound E dict) {args : List Bss}
    (given : ∀ arg ∈ args, arg.Arg) :
    Does env E L dict (spent env args) none (setnxCommand dict args) := by
  unfold setnxCommand setnxCommandOn
  split
  · split
    · exact does_int (Change.refl sound _) 0
    · exact setCommand_does sound given
  · exact does_fail sound numArgs

/-- The dictionary after the pairs are set. -/
def addPairs (dict : Dict W) : List Bss → Dict W
  | key :: val :: rest => addPairs (dictAdd dict key (StrObj.bssCreateObj val)) rest
  | _ => dict

theorem addPairs_change {dict : Dict W} {args : List Bss} (sound : Sound E dict)
    (short : ∀ arg ∈ args, arg.Short) : Change E dict (args.map Bss.id) (addPairs dict args) := by
  induction dict, args using addPairs.induct with
  | case1 dict key val rest inductionHypothesis =>
    have first := Change.addString sound (short key List.mem_cons_self) val
    refine first.trans (inductionHypothesis first.sound fun arg member => ?_)
    exact short arg (List.mem_cons_of_mem _ (List.mem_cons_of_mem _ member))
  | case2 args dict other =>
    rw [addPairs]
    · exact Change.refl sound _
    · exact other

theorem answer_answer (sh : Shared) (first second : UInt8) (data : Bytes) :
    (sh.answer first []).answer second data = sh.answer second data := rfl

/-- The reply state the pairs leave: every one is answered with `OK`. -/
def answerPairs (sh : Shared) : List Bss → Shared
  | _ :: _ :: _ => sh.answer rplyOk []
  | _ => sh

/-- Setting pairs is never interrupted. -/
theorem setPairs_eq (finish : Dict W → Run W) (dict : Dict W) (args : List Bss) (sh : Shared) :
    setPairs finish args dict sh = finish (addPairs dict args) (answerPairs sh args) := by
  induction dict, args using addPairs.induct generalizing sh with
  | case1 dict key val rest inductionHypothesis =>
    have answered : ¬ ((sh.answer rplyOk []).curr.replyType ≠ rplyOk ∨ (0 : Int) ≠ 0) := by
      rw [not_or]
      exact ⟨not_not.mpr rfl, not_not.mpr rfl⟩
    have step : setPairs finish (key :: val :: rest) dict sh =
        setPairs finish rest (dictAdd dict key (StrObj.bssCreateObj val))
          (sh.answer rplyOk []) := by
      rw [setPairs]
      show (if (sh.answer rplyOk []).curr.replyType ≠ rplyOk ∨ (0 : Int) ≠ 0 then
        returning (dictAdd dict key (StrObj.bssCreateObj val)) 0
        else setPairs finish rest (dictAdd dict key (StrObj.bssCreateObj val)))
          (sh.answer rplyOk []) = _
      rw [if_neg answered]
    rw [step, inductionHypothesis, addPairs]
    congr 1
    rcases rest with _ | ⟨next, _ | ⟨after, others⟩⟩
    · rfl
    · rfl
    · exact answer_answer sh rplyOk rplyOk []
  | case2 args dict other =>
    rw [addPairs, setPairs]
    · rcases args with _ | ⟨key, _ | ⟨val, rest⟩⟩
      · rfl
      · rfl
      · exact absurd rfl (other key val rest)
    · exact other
    · exact other

/-- What the pairs leave in the reply is overwritten. -/
theorem setPairs_true (dict : Dict W) (args : List Bss) :
    setPairs trueReply args dict = trueReply (addPairs dict args) := by
  funext sh
  rw [setPairs_eq]
  unfold answerPairs
  split <;> rfl

theorem msetnxCommand_does (sound : Sound E dict) {args : List Bss}
    (given : ∀ arg ∈ args, arg.Arg) :
    Does env E L dict (spent env args) none (msetnxCommand dict args) := by
  unfold msetnxCommand
  split
  · exact does_fail sound numArgs
  · split
    · exact does_int (Change.refl sound _) 0
    · rw [setPairs_true]
      have short : ∀ arg ∈ args, arg.Short := fun arg member => (given arg member).short
      refine does_int ((addPairs_change sound short).mono fun id => ?_) 1
      rw [spent, List.count_append]
      exact Nat.le_add_right _ _

/-! ### Numbers -/

theorem negatedArg_id {env : Env} {amount result : Bss} {number : Int}
    (negated : negatedArg env amount number = .ok result) : result.id = amount.id := by
  unfold negatedArg at negated
  split at negated
  · cases negated
  · cases negated
    rfl
  · split at negated
    · rename_i same
      cases negated
      exact same
    · cases negated

omit [StrStore W] in
/-- A refusal in an inner dictionary. -/
theorem does_fail_within {dict : Dict W} {wrap : Dict W → Dict V}
    (failed : Change E outer gain (wrap dict) ∧ (L ∨ wrap dict = outer)) (s : String)
    [ErrorText s] : Does env E L outer gain none ((failReply dict s).within wrap) := by
  rw [within_fail]
  exact does_fail_change failed.1 failed.2 s

/-- A number is refused before anything is touched; otherwise the key is added or assigned. The
surroundings `env'` of the computation play no part. -/
theorem decrbyincrbyCommandOn_does {env' : Env} {dict : Dict W} {key amount : Bss}
    {wrap : Dict W → Dict V}
    (type : Int)
    (failed : (bss2int amount).2 ≠ 0 ∨ dictLookUp dict key ≠ none →
      Change E outer gain (wrap dict) ∧ (L ∨ wrap dict = outer))
    (added : ∀ bss : Bss, bss.id = amount.id → dictLookUp dict key = none →
      Change E outer gain (wrap (dictAdd dict key (StrObj.bssCreateObj bss))))
    (changed : ∀ (old : W) (bss : Bss), dictLookUp dict key = some old →
      Store.ids old = [bss.id] →
      Change E outer gain (wrap (dictSetVal dict key (StrObj.bssCreateObj bss)))) :
    Does env E L outer gain none
      ((decrbyincrbyCommandOn env' type dict [key, amount]).within wrap) := by
  simp only [decrbyincrbyCommandOn]
  split
  · rename_i invalid
    exact does_fail_within (failed (Or.inl invalid)) invInt
  · cases answer : dictLookUp dict key with
    | none =>
      simp only
      split
      · split
        · exact does_fault _ gain
        · rename_i bss negated
          exact does_int (added bss (negatedArg_id negated) answer) _
      · exact does_int (added amount rfl answer) _
    | some old =>
      have present : dictLookUp dict key ≠ none := by
        rw [answer]
        exact Option.some_ne_none _
      simp only
      split
      · exact does_fail_within (failed (Or.inr present)) wrongType
      · rename_i own string
        split
        · exact does_fail_within (failed (Or.inr present)) invInt
        · split
          · exact does_fault _ gain
          · rename_i bss ret done
            split
            · exact does_fail_within (failed (Or.inr present)) invInt
            · refine does_int (changed old bss answer ?_) _
              rw [StrStore.ids_string string, bssAddSub_id done]

/-- The string of a key assigned anew, in place or in an allocation that was gained. -/
theorem Change.setString {dict : Dict W} {gain : List Nat} (sound : Sound E dict) {key bss : Bss}
    {old : W} (answer : dictLookUp dict key = some old)
    (own : Store.ids old = [bss.id] ∨ bss.id ∈ gain) :
    Change E dict gain (dictSetVal dict key (StrObj.bssCreateObj bss)) := by
  refine Change.setVal sound answer (StrStore.ok_create E bss) fun id => ?_
  rw [StrStore.ids_create]
  rcases own with same | gained
  · rw [same]
    exact Nat.le_add_right _ _
  · rw [List.count_singleton]
    split
    · rename_i same
      rw [← beq_iff_eq.mp same]
      exact Nat.le_trans (List.count_pos_iff.mpr gained) (Nat.le_add_left _ _)
    · exact Nat.zero_le _

theorem decrbyincrby_does {env' : Env} (type : Int) (sound : Sound E dict) {key amount : Bss}
    (short : key.Short) (more : ∀ id, [key.id, amount.id].count id ≤ gain.count id) :
    Does env E L dict gain none (decrbyincrbyCommandOn env' type dict [key, amount]) := by
  rw [← within_id (decrbyincrbyCommandOn env' type dict [key, amount])]
  have unchanged : Change E dict gain (id dict) := Change.refl sound gain
  refine decrbyincrbyCommandOn_does type (fun _ => ⟨unchanged, Or.inr rfl⟩)
    (fun bss same _ => ?_) (fun old bss answer own => ?_)
  · have change := Change.addString sound short bss
    rw [same] at change
    exact change.mono more
  · exact Change.setString sound answer (Or.inl own)

theorem count_spent_le (env : Env) (args : List Bss) (id : Nat) :
    (args.map Bss.id).count id ≤ (spent env args).count id := by
  rw [spent, List.count_append]
  exact Nat.le_add_right _ _

theorem incrby_does (type : Int) (sound : Sound E dict) {args : List Bss}
    (given : ∀ arg ∈ args, arg.Arg) :
    Does env E L dict (spent env args) none (decrbyincrbyCommandOn env type dict args) := by
  rcases args with _ | ⟨key, _ | ⟨amount, _ | ⟨third, rest⟩⟩⟩
  · exact does_fail sound numArgs
  · exact does_fail sound numArgs
  · exact decrbyincrby_does type sound (given key List.mem_cons_self).short
      (count_spent_le env [key, amount])
  · exact does_fail sound numArgs

theorem incr_does (type : Int) (sound : Sound E dict) {key : Bss} (short : key.Short) :
    Does env E L dict (spent env [key]) none
      (decrbyincrbyCommandOn env.next type dict [key, bssCreate env env.fresh (bytes "1")]) := by
  refine decrbyincrby_does type sound short fun id => ?_
  simp only [spent, bssCreate, List.map_cons, List.map_nil, List.cons_append, List.nil_append,
    List.count_cons, List.count_nil]
  omega

theorem incrCommand_does (sound : Sound E dict) {args : List Bss}
    (given : ∀ arg ∈ args, arg.Arg) :
    Does env E L dict (spent env args) none (incrCommand env dict args) := by
  unfold incrCommand
  split
  · rename_i key
    exact incr_does posOp sound (given key List.mem_cons_self).short
  · exact does_fail sound numArgs

theorem decrCommand_does (sound : Sound E dict) {args : List Bss}
    (given : ∀ arg ∈ args, arg.Arg) :
    Does env E L dict (spent env args) none (decrCommand env dict args) := by
  unfold decrCommand
  split
  · rename_i key
    exact incr_does negOp sound (given key List.mem_cons_self).short
  · exact does_fail sound numArgs

theorem bind_ok {Value Other : Type} {computation : Except Fault Value}
    {next : Value → Except Fault Other} {result : Other}
    (run : computation.bind next = .ok result) :
    ∃ value, computation = .ok value ∧ next value = .ok result := by
  cases computation with
  | error stop => cases run
  | ok value => exact ⟨value, rfl, run⟩

theorem sprintfLdb_le {number : LongDouble} {str : Bytes}
    (printed : sprintfLdb env number = .ok str) :
    str.length ≤ maxRplySize := by
  rw [sprintfLdb] at printed
  split at printed
  · cases printed
  · rename_i fits
    cases printed
    have room : bssLdbLen ≤ maxRplySize := by decide
    omega

/-- A number is refused before anything is touched; otherwise the key is added or assigned. -/
theorem incrbyfloatCommandOn_does {dict : Dict W} {key amount : Bss} {wrap : Dict W → Dict V}
    (failed : (bss2ld env amount).2 ≠ 0 ∨ dictLookUp dict key ≠ none →
      Change E outer gain (wrap dict) ∧ (L ∨ wrap dict = outer))
    (added : ∀ bss : Bss, bss.id = env.fresh → dictLookUp dict key = none →
      Change E outer gain (wrap (dictAdd dict key (StrObj.bssCreateObj bss))))
    (changed : ∀ (old : W) (bss : Bss), dictLookUp dict key = some old →
      Store.ids old = [bss.id] ∨ bss.id = env.fresh →
      Change E outer gain (wrap (dictSetVal dict key (StrObj.bssCreateObj bss)))) :
    Does env E L outer gain none ((incrbyfloatCommandOn env dict [key, amount]).within wrap) := by
  simp only [incrbyfloatCommandOn]
  split
  · rename_i invalid
    exact does_fail_within (failed (Or.inl invalid)) invFlt
  · cases answer : dictLookUp dict key with
    | none =>
      simp only
      split
      · exact does_fault _ gain
      · rename_i bss printed
        obtain ⟨str, fits, cut⟩ := bind_ok printed
        have size := bssCutZero_len cut
        rw [bssCreate_len] at size
        rw [within_string]
        exact does_string (added bss (bssCutZero_id cut) answer) _ _ fun long =>
          absurd (Nat.le_trans size (sprintfLdb_le fits)) (Nat.not_le.mpr long)
    | some old =>
      have present : dictLookUp dict key ≠ none := by
        rw [answer]
        exact Option.some_ne_none _
      simp only
      split
      · exact does_fail_within (failed (Or.inr present)) wrongType
      · rename_i own string
        split
        · exact does_fail_within (failed (Or.inr present)) invFlt
        · split
          · exact does_fault _ gain
          · exact does_fault _ gain
          · rename_i assigned done
            split
            · exact does_fault _ gain
            · rename_i bss cut
              obtain ⟨str, fits, set⟩ := bind_ok done
              have size := bssCutZero_len cut
              rw [bssSet_len set] at size
              have held : Store.ids old = [bss.id] ∨ bss.id = env.fresh := by
                rw [StrStore.ids_string string, bssCutZero_id cut]
                rcases bssSet_id set with same | fresh
                · exact Or.inl (by rw [same])
                · exact Or.inr fresh
              rw [within_string]
              exact does_string (changed old bss answer held) _ _ fun long =>
                absurd (Nat.le_trans size (sprintfLdb_le fits)) (Nat.not_le.mpr long)

theorem incrbyfloatCommand_does (sound : Sound E dict) {args : List Bss}
    (given : ∀ arg ∈ args, arg.Arg) :
    Does env E L dict (spent env args) none (incrbyfloatCommand env dict args) := by
  unfold incrbyfloatCommand
  rcases args with _ | ⟨key, _ | ⟨amount, _ | ⟨third, rest⟩⟩⟩
  · exact does_fail sound numArgs
  · exact does_fail sound numArgs
  · rw [← within_id (incrbyfloatCommandOn env dict [key, amount])]
    have unchanged : Change E dict (spent env [key, amount]) (id dict) := Change.refl sound _
    refine incrbyfloatCommandOn_does (fun _ => ⟨unchanged, Or.inr rfl⟩)
      (fun bss fresh _ => ?_) (fun old bss answer own => ?_)
    · refine (Change.addString sound (given key List.mem_cons_self).short bss).mono
        fun id => ?_
      rw [fresh]
      simp only [spent, List.map_cons, List.map_nil, List.cons_append, List.nil_append,
        List.count_cons, List.count_nil]
      omega
    · refine Change.setString sound answer (own.imp_right fun fresh => ?_)
      rw [fresh]
      exact List.mem_append_right _ List.mem_cons_self
  · exact does_fail sound numArgs

/-! ### Bytes and bits of a string -/

theorem strlenCommand_does (sound : Sound E dict) (args : List Bss) :
    Does env E L dict gain none (strlenCommand dict args) := by
  unfold strlenCommand
  split
  · split
    · exact does_int (Change.refl sound gain) 0
    · exact does_int (Change.refl sound gain) _
    · exact does_fail sound wrongType
  · exact does_fail sound numArgs

theorem appendCommand_does (sound : Sound E dict) {args : List Bss}
    (given : ∀ arg ∈ args, arg.Arg) :
    Does env E L dict (spent env args) none (appendCommand dict args) := by
  unfold appendCommand
  split
  · rename_i key val
    split
    · have change := Change.addString sound (given key List.mem_cons_self).short val
      exact does_int (change.mono (count_spent_le env [key, val])) _
    · rename_i bss answer
      split
      · exact does_fault _ _
      · exact does_fault _ _
      · rename_i grown appended
        refine does_int (Change.setString sound answer (Or.inl ?_)) _
        show [bss.id] = [grown.id]
        rw [bssAppend_id appended]
    · exact does_fail sound wrongType
  · exact does_fail sound numArgs

theorem getbitCommand_does (sound : Sound E dict) (args : List Bss) :
    Does env E L dict gain none (getbitCommand dict args) := by
  unfold getbitCommand
  split
  · simp only
    split
    · exact does_fail sound invOffset
    · split
      · exact does_int (Change.refl sound gain) 0
      · split
        · exact does_fault _ gain
        · exact does_int (Change.refl sound gain) _
      · exact does_fail sound wrongType
  · exact does_fail sound numArgs

theorem newString_id {edit : Bss → Except Fault (Option Bss)} {bss : Bss}
    (own : ∀ origin result, edit origin = .ok (some result) →
      result.id = origin.id ∨ result.id = env.fresh + 1)
    (created : newString env edit = .ok (some bss)) :
    bss.id = env.fresh ∨ bss.id = env.fresh + 1 := by
  unfold newString at created
  split at created
  · cases created
  · rename_i origin empty
    rcases own origin bss created with same | next
    · exact Or.inl (same.trans (bssCreateEmpty_id empty))
    · exact Or.inr next

/-- A new key that holds one of the two allocations a handler can make. -/
theorem Change.addNew (sound : Sound E dict) {key bss : Bss} (short : key.Short) (rest : List Bss)
    (own : bss.id = env.fresh ∨ bss.id = env.fresh + 1) :
    Change E dict (spent env (key :: rest)) (dictAdd dict key (.string bss)) := by
  refine (Change.addString sound short bss).mono fun id => ?_
  simp only [spent, List.map_cons, List.cons_append, List.count_cons, List.count_append,
    List.count_nil]
  rcases own with fresh | next
  · rw [fresh]
    omega
  · rw [next]
    omega

/-- A string that was edited in place or in the allocation a handler can make. -/
theorem Change.setEdited (sound : Sound E dict) {key bss edited : Bss}
    (answer : dictLookUp dict key = some (.string bss)) (args : List Bss)
    (own : edited.id = bss.id ∨ edited.id = env.fresh) :
    Change E dict (spent env args) (dictSetVal dict key (.string edited)) := by
  refine Change.setString sound answer ?_
  rcases own with same | fresh
  · exact Or.inl (by rw [same]; rfl)
  · refine Or.inr ?_
    rw [fresh]
    exact List.mem_append_right _ List.mem_cons_self

theorem setbitCommand_does (sound : Sound E dict) {args : List Bss}
    (given : ∀ arg ∈ args, arg.Arg) :
    Does env E L dict (spent env args) none (setbitCommand env dict args) := by
  unfold setbitCommand
  split
  · rename_i key offset bit
    simp only
    split
    · exact does_fail sound invOffset
    · split
      · exact does_fail sound invSynx
      · split
        · split
          · exact does_fault _ _
          · exact does_fail sound memOut
          · rename_i bss created
            exact does_int (Change.addNew sound (given key List.mem_cons_self).short _
              (newString_id (fun _ _ => bssSetbit_id) created)) 0
        · rename_i bss answer
          split
          · exact does_fault _ _
          · exact does_fault _ _
          · exact does_fail sound memOut
          · rename_i edited
            exact does_int (Change.setEdited sound answer _ (bssSetbit_id edited)) _
        · exact does_fail sound wrongType
  · exact does_fail sound numArgs

theorem bitcountCommand_does (sound : Sound E dict) (args : List Bss) :
    Does env E L dict gain none (bitcountCommand dict args) := by
  unfold bitcountCommand
  split
  · split
    · exact does_int (Change.refl sound gain) 0
    · split
      · exact does_fault _ gain
      · exact does_int (Change.refl sound gain) _
    · exact does_fail sound wrongType
  · exact does_fail sound numArgs

theorem setrangeCommand_does (sound : Sound E dict) {args : List Bss}
    (given : ∀ arg ∈ args, arg.Arg) :
    Does env E L dict (spent env args) none (setrangeCommand env dict args) := by
  unfold setrangeCommand
  split
  · rename_i key offset val
    simp only
    split
    · exact does_fail sound invOffset
    · split
      · split
        · exact does_fault _ _
        · exact does_fail sound memOut
        · rename_i bss created
          exact does_int (Change.addNew sound (given key List.mem_cons_self).short _
            (newString_id (fun _ _ => bssSetrange_id) created)) _
      · rename_i bss answer
        split
        · exact does_fault _ _
        · exact does_fail sound memOut
        · rename_i edited
          exact does_int (Change.setEdited sound answer _ (bssSetrange_id edited)) _
      · exact does_fail sound wrongType
  · exact does_fail sound numArgs

theorem getrangeCommand_does (sound : Sound E dict) (args : List Bss) :
    Does env E L dict gain none (getrangeCommand dict args) := by
  have answers : ∀ s len, Does env E L dict gain none (stringReply dict s len) :=
    fun s len => does_string (Change.refl sound gain) s len fun _ => Or.inr rfl
  unfold getrangeCommand
  split
  · simp only
    split
    · exact does_fail sound invInt
    · split
      · exact answers _ _
      · split
        · exact answers _ _
        · split
          · exact answers _ _
          · split
            · exact answers _ _
            · exact answers _ _
      · exact does_fail sound wrongType
  · exact does_fail sound numArgs

end PseudoRedis
