/-
This file is about the containers of the key space. A run of commands keeps every list,
hash and set non-empty as long as no command of the run leaves one without elements
(`CommandFunc.Empties`), and in such a run nothing is ever popped from an empty list.
The commands that do leave one break this: after `RPUSH b x` and `BLPOP a b` the key
`b` holds an empty list, and `LPOP b` dereferences the entry it does not have.
-/

import PseudoRedis.Commands.Summary

namespace PseudoRedis

/-! ### Runs of commands -/

/-- The key spaces that calls of handlers lead to, if every call is allowed where it is made. -/
inductive Reachable (allowed : Dict Obj → Call → Prop) : Dict Obj → Prop
  | start : Reachable allowed (dictCreate initDictSize)
  | step {dict : Dict Obj} {sh : Shared} {result : Result Obj} (call : Call)
      (before : Reachable allowed dict) (fine : allowed dict call)
      (ran : call.run dict sh = .ok result) : Reachable allowed result.dict

variable {E E' : Prop} {dict : Dict Obj}

/-- Letting empty containers in lets more key spaces in. -/
theorem Sound.mono (sound : Sound E dict) (weaker : E → E') : Sound E' dict := by
  refine ⟨sound.placed, sound.count, fun entry member => ?_⟩
  have ok : Obj.Ok E entry.val := sound.vals entry member
  show Obj.Ok E' entry.val
  cases val : entry.val with
  | string bss => trivial
  | list entries =>
    rw [val] at ok
    exact ⟨ok.1.imp_left weaker, ok.2⟩
  | hash inner =>
    rw [val] at ok
    exact ⟨ok.1, ok.2.imp_left weaker⟩
  | set inner =>
    rw [val] at ok
    exact ⟨ok.1, ok.2.imp_left weaker⟩

theorem Reachable.sound {allowed : Dict Obj → Call → Prop} (reach : Reachable allowed dict)
    (fine : ∀ dict call, allowed dict call → call.Empties dict → E) : Sound E dict := by
  induction reach with
  | start => exact sound_create E (by decide)
  | step call before allowed ran inductionHypothesis =>
    have does := call.does (L := True) inductionHypothesis (fine _ call allowed) fun _ => trivial
    obtain ⟨fill, answer, sh', effect, -, -⟩ := does.result ran
    exact effect.sound

/-! ### Containers with elements -/

/-- A list, a hash or a set without elements. -/
def Obj.Empty : Obj → Prop
  | .string _ => False
  | .list entries => entries = []
  | .hash dict => dict.entries = []
  | .set dict => dict.entries = []

theorem Sound.not_empty (sound : Sound False dict) {key : Bss} {obj : Obj}
    (answer : dictLookUp dict key = some obj) : ¬ obj.Empty := by
  have ok : Obj.Ok False obj := sound.lookUp answer
  cases obj with
  | string bss => exact id
  | list entries => exact ok.1.resolve_left id
  | hash inner => exact ok.2.resolve_left id
  | set inner => exact ok.2.resolve_left id

/-- No handler pops from an empty list of a key space without empty containers. -/
theorem Call.not_nullEntry (sound : Sound False dict) (call : Call) (sh : Shared) :
    call.run dict sh ≠ .error .nullEntry := by
  have does := call.does_any (sound.mono False.elim)
  exact fun ran => (does.stopped ran).1 rfl sound

/-- In a run without a call that empties a container in place, no key ever holds an empty container,
and no handler dereferences an entry that an empty list did not give. -/
theorem reachable_nonEmpty
    (reach : Reachable (fun dict call => ¬ call.Empties dict) dict) :
    (∀ key obj, dictLookUp dict key = some obj → ¬ obj.Empty) ∧
      ∀ (call : Call) (sh : Shared), call.run dict sh ≠ .error .nullEntry := by
  have sound : Sound False dict := reach.sound fun _ _ fine empties => fine empties
  exact ⟨fun key obj answer => sound.not_empty answer, fun call sh => call.not_nullEntry sound sh⟩

/-! ### A run that empties a list -/

/-- An argument made of a text. -/
def textArg (id : Nat) (text : String) : Bss := bssCreate Env.plain id (bytes text)

theorem textArg_arg (id : Nat) {text : String} (short : (bytes text).length ≤ maxRplySize) :
    (textArg id text).Arg := by
  refine ⟨short, ?_⟩
  show (bytes text).length ≤ (bytes text ++ _).length
  rw [List.length_append]
  exact Nat.le_add_right _ _

/-- A call in plain surroundings whose arguments are texts. -/
def textCall (func : CommandFunc) (texts : List (Nat × String))
    (short : ∀ text ∈ texts, (bytes text.2).length ≤ maxRplySize) : Call where
  env := Env.plain
  func := func
  args := texts.map fun text => textArg text.1 text.2
  given arg member := by
    obtain ⟨text, inTexts, rfl⟩ := List.mem_map.mp member
    exact textArg_arg _ (short text inTexts)

/-- The key space after `RPUSH b x`. -/
def pushedKey : Dict Obj :=
  dictAdd (dictCreate initDictSize) (textArg 1 "b") (.list [textArg 2 "x"])

theorem pushedKey_ran :
    (textCall .rpush [(1, "b"), (2, "x")] (by decide)).run (dictCreate initDictSize)
      (Shared.holding []) = .ok ⟨pushedKey, (createIntReply (Shared.holding []) 1).1, 0⟩ := rfl

theorem pushedKey_reachable : Reachable (fun _ _ => True) pushedKey :=
  .step _ .start trivial pushedKey_ran

/-- The key space after `BLPOP a b` as well. -/
def emptiedKey : Dict Obj := putList pushedKey (textArg 4 "b") (textArg 3 "a") []

/-- After `RPUSH b x` and `BLPOP a b` the list is empty and still there, and `LPOP b` dereferences
`NULL`. -/
theorem reachable_empty :
    ∃ dict : Dict Obj, Reachable (fun _ _ => True) dict ∧
      (∃ key obj, dictLookUp dict key = some obj ∧ obj.Empty) ∧
      ∃ (call : Call) (sh : Shared), call.run dict sh = .error .nullEntry := by
  have pop : (textCall .blpop [(3, "a"), (4, "b")] (by decide)).run pushedKey
      (Shared.holding []) = .ok ⟨emptiedKey,
        addAll (Shared.holding []) (popped (textArg 3 "a") (textArg 2 "x")), 0⟩ := rfl
  have emptied : Reachable (fun _ _ => True) emptiedKey :=
    .step _ pushedKey_reachable trivial pop
  refine ⟨emptiedKey, emptied, ⟨textArg 5 "b", .list [], rfl, rfl⟩,
    textCall .lpop [(5, "b")] (by decide), Shared.holding [], rfl⟩

/-- A run in which no call empties a container in place. -/
theorem reachable_nonEmpty_push :
    Reachable (fun dict call => ¬ call.Empties dict) pushedKey ∧
      ((∀ key obj, dictLookUp pushedKey key = some obj → ¬ obj.Empty) ∧
        ∀ (call : Call) (sh : Shared), call.run pushedKey sh ≠ .error .nullEntry) := by
  have reach : Reachable (fun dict call => ¬ call.Empties dict) pushedKey :=
    .step _ .start id pushedKey_ran
  exact ⟨reach, reachable_nonEmpty reach⟩

end PseudoRedis
