/-
This file is about commands that fail. What a key space contains is a map from byte
strings to values (`Dict.view`): the bytes of strings and of the entries of lists, the
fields of hashes and the members of sets. A command that does not block leaves this map
as it was whenever it fails, except in the cases of `CommandFunc.Leaks`: `HINCRBY` and
`HINCRBYFLOAT` create the hash before they read the number, and `RPOPLPUSH` pops the
entry and frees the first key before it checks the type of the second, so its refusal
frees the first key again.
-/

import PseudoRedis.NonEmpty
import Mathlib.Data.List.Nodup

namespace PseudoRedis

/-! ### What a key space contains -/

/-- The finite map a dictionary stands for, read off its entries. -/
def Dict.toMap {V : Type} (dict : Dict V) (key : Bytes) : Option V :=
  (dict.entries.find? fun entry => entry.key.content == key).map DictEntry.val

theorem lookUp_eq_toMap {V : Type} {dict : Dict V} (placed : dict.Placed) {key : Bss}
    (short : key.Short) : dictLookUp dict key = dict.toMap key.content := by
  refine Option.ext fun val => ?_
  rw [lookUp_eq_some_iff placed short, Dict.toMap, Option.map_eq_some_iff]
  constructor
  · rintro ⟨entry, member, same, rfl⟩
    cases there : dict.entries.find? fun entry => entry.key.content == key.content with
    | none =>
      have other := List.find?_eq_none.mp there entry member
      exact absurd (beq_iff_eq.mpr same) other
    | some first =>
      have found := List.find?_some there
      have firstSame : first.key.content = key.content := beq_iff_eq.mp found
      have equal : first = entry := List.inj_on_of_nodup_map placed.distinct
        (List.mem_of_find?_eq_some there) member (firstSame.trans same.symm)
      exact ⟨first, rfl, congrArg DictEntry.val equal⟩
  · rintro ⟨entry, there, rfl⟩
    have found := List.find?_some there
    exact ⟨entry, List.mem_of_find?_eq_some there, beq_iff_eq.mp found, rfl⟩

/-- The value of an object, without allocations and tables. -/
inductive Value where
  | string (data : Bytes)
  | list (entries : List Bytes)
  | hash (fields : Bytes → Option Bytes)
  | set (members : Bytes → Prop)

def Obj.value : Obj → Value
  | .string bss => .string bss.content
  | .list entries => .list (entries.map Bss.content)
  | .hash dict => .hash fun field => (dict.toMap field).map Bss.content
  | .set dict => .set fun member => dict.toMap member ≠ none

/-- The contents of a key space. -/
def Dict.view (dict : Dict Obj) (key : Bytes) : Option Value := (dict.toMap key).map Obj.value

theorem view_eq {dict : Dict Obj} (placed : dict.Placed) {key : Bss} (short : key.Short) :
    dict.view key.content = (dictLookUp dict key).map Obj.value := by
  rw [lookUp_eq_toMap placed short, Dict.view]

/-! ### Failing calls -/

/-- The handler builds a reply of type `RPLY_FAIL`, or returns `E_TOO_LONG` to have one built. -/
def Fails (before : Shared) (result : Result Obj) : Prop :=
  result.ret = eTooLong ∨
    (before.curr.replyType ≠ rplyFail ∧ result.sh.curr.replyType = rplyFail)

/-- If the call fails, the key space contains what it contained before, and the refusal does not
free an argument that was freed already. -/
def Atomic (call : Call) (dict : Dict Obj) : Prop :=
  (∀ sh : Shared, call.run dict sh ≠ .error .freedTwice) ∧
    ∀ (sh : Shared) (result : Result Obj), call.run dict sh = .ok result → Fails sh result →
      result.dict.view = dict.view

theorem fails_of_finish {env : Env} {dict : Dict Obj} {fill : Option (List Elem)}
    {answer : Answer} {sh sh' : Shared} {result : Result Obj} (fills : Fills fill sh sh')
    (finished : answer.finish env dict sh' = .ok result) (fails : Fails sh result) :
    answer.Fails := by
  cases answer with
  | scalar type data =>
    cases finished
    exact fails.elim (fun code => absurd code (by decide : (0 : Int) ≠ eTooLong)) And.right
  | refused => trivial
  | array type => trivial
  | silent ret =>
    cases finished
    refine fails.elim id fun built => absurd ?_ built.1
    rw [← fills.curr]
    exact built.2

theorem atomic_of_not_leaks {dict : Dict Obj} (sound : Sound True dict) {call : Call}
    (tight : ¬ call.Leaks dict) : Atomic call dict := by
  have does := call.does (L := False) sound (fun _ => trivial) tight
  constructor
  · exact fun sh again => (does.stopped again).2 rfl
  · intro sh result ran fails
    obtain ⟨fill, answer, sh', effect, fills, finished⟩ := does.result ran
    rw [(effect.atomic (fails_of_finish fills finished fails)).resolve_left id]

/-- A call that fails on another key space than it was given. -/
theorem not_atomic {call : Call} {dict dict' : Dict Obj} (s : String) [ErrorText s]
    (fails : call.run dict = failReply dict' s) (differs : dict'.view ≠ dict.view) :
    ¬ Atomic call dict := by
  rintro ⟨-, atomic⟩
  rw [failReply_eq] at fails
  exact differs (atomic (Shared.holding []) ⟨dict', _, 0⟩ (congrFun fails _)
    (Or.inr ⟨by decide, rfl⟩))

/-! ### The calls that leak -/

theorem view_addHash_ne {dict : Dict Obj} (sound : Sound True dict) {key : Bss}
    (short : key.Short) (absent : dictLookUp dict key = none) :
    (putBack Kind.hash (addHash dict key) key (dictCreate newDictPow)).view ≠ dict.view := by
  intro same
  have added : putBack Kind.hash (addHash dict key) key (dictCreate newDictPow) =
      addHash dict key := putBack_add sound Kind.hash key _ _
  have here := congrFun same key.content
  rw [added, view_eq sound.placed short, absent, addHash,
    view_eq (dictAdd_placed sound.placed short _) short,
    lookUp_dictAdd_self sound.placed.sized, absent] at here
  cases here

/-- The hash that was added for an absent key stays when the number is refused. -/
theorem leavesHash_not_atomic {dict : Dict Obj} (sound : Sound True dict) {call : Call}
    {invalid : Bss → Prop} (leaves : leavesHash invalid dict call.args) (s : String) [ErrorText s]
    (fails : ∀ key field amount, call.args = [key, field, amount] → dictLookUp dict key = none →
      invalid amount → call.run dict =
        failReply (putBack Kind.hash (addHash dict key) key (dictCreate newDictPow)) s) :
    ¬ Atomic call dict := by
  obtain ⟨env, func, args, given⟩ := call
  rcases args with _ | ⟨key, _ | ⟨field, _ | ⟨amount, _ | ⟨fourth, rest⟩⟩⟩⟩
  · exact leaves.elim
  · exact leaves.elim
  · exact leaves.elim
  · obtain ⟨absent, wrong⟩ := leaves
    have short := (given key List.mem_cons_self).short
    exact not_atomic s (fails key field amount rfl absent wrong)
      (view_addHash_ne sound short absent)
  · exact leaves.elim

theorem hincrby_not_atomic {dict : Dict Obj} (sound : Sound True dict) {call : Call}
    (leaves : leavesHash invalidInt dict call.args) (func : call.func = .hincrby) :
    ¬ Atomic call dict := by
  refine leavesHash_not_atomic sound leaves invInt fun key field amount same absent invalid => ?_
  rw [Call.run, func, same]
  simp only [CommandFunc.run, hincrbyCommand, absent]
  rw [← within_fail]
  simp only [incrbyCommandOn, decrbyincrbyCommandOn]
  rw [if_pos (show (bss2int amount).2 ≠ 0 from invalid)]

theorem hincrbyfloat_not_atomic {dict : Dict Obj} (sound : Sound True dict) {call : Call}
    (leaves : leavesHash (invalidFloat call.env) dict call.args)
    (func : call.func = .hincrbyfloat) : ¬ Atomic call dict := by
  refine leavesHash_not_atomic sound leaves invFlt fun key field amount same absent invalid => ?_
  rw [Call.run, func, same]
  simp only [CommandFunc.run, hincrbyfloatCommand, absent]
  rw [← within_fail]
  simp only [incrbyfloatCommandOn]
  rw [if_pos (show (bss2ld call.env amount).2 ≠ 0 from invalid)]

theorem rpoplpush_not_atomic {dict : Dict Obj} (sound : Sound True dict) {call : Call}
    (loses : losesArgs dict call.args) (func : call.func = .rpoplpush) :
    ¬ Atomic call dict := by
  obtain ⟨env, own, args, given⟩ := call
  subst func
  rcases args with _ | ⟨src, _ | ⟨dst, _ | ⟨third, rest⟩⟩⟩
  · exact loses.elim
  · exact loses.elim
  · obtain ⟨⟨entries, answer, filled⟩, obj, target, other⟩ := loses
    have srcShort := (given src List.mem_cons_self).short
    have dstShort := (given dst (List.mem_cons_of_mem _ List.mem_cons_self)).short
    cases out : listPop .right entries with
    | none => exact absurd (eq_nil_of_listPop out) filled
    | some pair =>
      obtain ⟨entry, rest⟩ := pair
      have different : dst.content ≠ src.content := by
        intro same
        rw [lookUp_of_content sound.placed srcShort dstShort same, answer] at target
        exact other entries (Option.some.inj target).symm
      have after : dictLookUp (putList dict src src rest) dst = some obj := by
        rwa [lookUp_putList_of_ne sound.placed srcShort dstShort different]
      -- the destination is looked up when the entry is out and the first key is freed
      have again : rpoplpushCommand dict [src, dst] = freedTwice := by
        cases obj with
        | list entries => exact absurd rfl (other entries)
        | _ => simp only [rpoplpushCommand, rpoplpush, answer, out, after]
      exact fun atomic => atomic.1 (Shared.holding []) (congrFun again _)
  · exact loses.elim

/-- In every key space that commands lead to, a command that does not block leaves the contents as
they were whenever it fails, exactly if it is not one of the cases in which it leaks. -/
theorem atomic_iff {dict : Dict Obj} (reach : Reachable (fun _ _ => True) dict) (call : Call)
    (direct : call.func.blocks = false) : Atomic call dict ↔ ¬ call.Leaks dict := by
  have sound : Sound True dict := reach.sound fun _ _ _ _ => trivial
  constructor
  · intro atomic leaks
    obtain ⟨env, func, args, given⟩ := call
    cases func with
    | hincrby => exact hincrby_not_atomic sound leaks rfl atomic
    | hincrbyfloat => exact hincrbyfloat_not_atomic sound leaks rfl atomic
    | rpoplpush => exact rpoplpush_not_atomic sound leaks rfl atomic
    | brpoplpush => cases direct
    | _ => exact leaks
  · exact atomic_of_not_leaks sound

/-- `HINCRBY h f x` on the empty key space fails and leaves an empty hash. -/
theorem hincrby_leaks :
    ∃ (dict : Dict Obj) (call : Call), Reachable (fun _ _ => True) dict ∧
      call.func.blocks = false ∧ ¬ Atomic call dict := by
  refine ⟨dictCreate initDictSize, textCall .hincrby [(1, "h"), (2, "f"), (3, "x")] (by decide),
    .start, rfl, ?_⟩
  have sound : Sound True (dictCreate initDictSize : Dict Obj) := sound_create True (by decide)
  have invalid : (bss2int (textArg 3 "x")).2 ≠ 0 := by decide
  exact hincrby_not_atomic sound ⟨rfl, invalid⟩ rfl

theorem atomic_iff_get :
    Reachable (fun _ _ => True) pushedKey ∧ CommandFunc.get.blocks = false ∧
      (Atomic (textCall .get [(3, "b")] (by decide)) pushedKey ↔
        ¬ (textCall .get [(3, "b")] (by decide)).Leaks pushedKey) := by
  exact ⟨pushedKey_reachable, rfl, atomic_iff pushedKey_reachable _ rfl⟩

end PseudoRedis
