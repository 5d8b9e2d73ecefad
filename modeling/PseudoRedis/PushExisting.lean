/-
This file is about `LPUSHX` and `RPUSHX`. A helper of their own is written for them, which
pushes to an existing list only, and nothing calls it: the handlers in the table call the
helper of `LPUSH` and `RPUSH`. On a key that is there the two helpers do the same.
-/

import PseudoRedis.Request
import PseudoRedis.NonEmpty

namespace PseudoRedis

/-! ### The two helpers -/

/-- `_lpushxrpushx_command`, which no handler calls. -/
def lpushxrpushxCommand (side : End) (dict : Dict Obj) (args : List Bss) : Run Obj :=
  match args with
  | [key, val] =>
      match dictLookUp dict key with
      | none => intReply dict 0
      | some (.list entries) =>
          intReply (dictSetVal dict key (.list (listInsert side entries val)))
            (listInsert side entries val).length
      | some _ => failReply dict wrongType
  | _ => failReply dict numArgs

variable {dict : Dict Obj} {key : Bss}

/-- Only a state without the key tells the helpers apart. -/
theorem pushx_helpers_agree (side : End) (val : Bss) (present : dictLookUp dict key ≠ none) :
    lpushrpushCommand side dict [key, val] = lpushxrpushxCommand side dict [key, val] := by
  cases answer : dictLookUp dict key with
  | none => exact absurd answer present
  | some obj =>
    cases obj with
    | string bss | hash hash | set set =>
      simp only [lpushrpushCommand, lpushxrpushxCommand, answer]
    | list entries =>
      simp only [lpushrpushCommand, lpushxrpushxCommand, answer, List.foldl_cons, List.foldl_nil]

/-- Without the key, one of them replies with the length of a new list. -/
theorem pushx_helpers_differ (side : End) (val : Bss) (absent : dictLookUp dict key = none) :
    lpushrpushCommand side dict [key, val] ≠ lpushxrpushxCommand side dict [key, val] := by
  intro same
  simp only [lpushrpushCommand, lpushxrpushxCommand, absent] at same
  have numbers : bigEndian64 1 = bigEndian64 0 := number_of_intReply (Shared.holding []) same
  exact absurd numbers (by decide)

/-! ### The commands in the table -/

/-- What the table dispatches a name to. -/
def dispatched (env : Env) (dict : Dict Obj) (args : List Bss) (name : String) : Option (Run Obj) :=
  (findCommand (bytes name)).map fun entry => entry.func.run env dict args

def pushName : End → String
  | .left => "lpush"
  | .right => "rpush"

def pushxName : End → String
  | .left => "lpushx"
  | .right => "rpushx"

theorem dispatched_push (env : Env) (dict : Dict Obj) (args : List Bss) (side : End) :
    dispatched env dict args (pushName side) = some (lpushrpushCommand side dict args) ∧
      dispatched env dict args (pushxName side) = some (lpushrpushCommand side dict args) := by
  cases side with
  | left => exact ⟨rfl, rfl⟩
  | right => exact ⟨rfl, rfl⟩

/-- The `X` form does nothing without the key, pushes to a list as the plain form does, and refuses
an object of another type. -/
structure PushesExisting (env : Env) (dict : Dict Obj) (key val : Bss) (side : End)
    (run : Run Obj) : Prop where
  absent : dictLookUp dict key = none → run = intReply dict 0
  list : ∀ entries, dictLookUp dict key = some (.list entries) →
    dispatched env dict [key, val] (pushName side) = some run
  other : ∀ obj, dictLookUp dict key = some obj → (∀ entries, obj ≠ .list entries) →
    run = failReply dict wrongType

/-- The helper written for the `X` forms does all that. -/
theorem pushesExisting_own (env : Env) (dict : Dict Obj) (key val : Bss) (side : End) :
    PushesExisting env dict key val side (lpushxrpushxCommand side dict [key, val]) := by
  refine ⟨fun absent => ?_, fun entries answer => ?_, fun obj answer other => ?_⟩
  · simp only [lpushxrpushxCommand, absent]
  · rw [(dispatched_push env dict [key, val] side).1, pushx_helpers_agree]
    rw [answer]
    exact Option.some_ne_none _
  · cases obj with
    | string bss | hash hash | set set => simp only [lpushxrpushxCommand, answer]
    | list entries => exact absurd rfl (other entries)

/-- `LPUSHX` and `RPUSHX` push to existing lists only, exactly if the key is there. -/
theorem pushx_existing_iff (env : Env) (dict : Dict Obj) (key val : Bss) (side : End) :
    (∃ run, dispatched env dict [key, val] (pushxName side) = some run ∧
      PushesExisting env dict key val side run) ↔ dictLookUp dict key ≠ none := by
  rw [(dispatched_push env dict [key, val] side).2]
  have own := pushesExisting_own env dict key val side
  constructor
  · rintro ⟨run, same, pushes⟩ absent
    have kept := pushes.absent absent
    rw [← Option.some.inj same] at kept
    exact pushx_helpers_differ side val absent (kept.trans (own.absent absent).symm)
  · intro present
    exact ⟨_, rfl, pushx_helpers_agree side val present ▸ own⟩

/-- `LPUSHX k x` on an empty key space makes a list. -/
theorem pushx_creates_list :
    ∃ (env : Env) (dict : Dict Obj) (key val : Bss) (side : End),
      Reachable (fun _ _ => True) dict ∧
      ¬ ∃ run, dispatched env dict [key, val] (pushxName side) = some run ∧
        PushesExisting env dict key val side run := by
  refine ⟨Env.plain, dictCreate initDictSize, textArg 1 "k", textArg 2 "x", .left, .start, ?_⟩
  rintro ⟨run, same, pushes⟩
  have absent : dictLookUp (dictCreate initDictSize : Dict Obj) (textArg 1 "k") = none := rfl
  have kept := pushes.absent absent
  rw [(dispatched_push _ _ _ _).2] at same
  rw [← Option.some.inj same] at kept
  exact pushx_helpers_differ .left (textArg 2 "x") absent kept

end PseudoRedis
