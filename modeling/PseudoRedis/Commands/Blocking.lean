/-
This file says what the three blocking handlers do. None of them builds an array reply
of its own: a handler refuses, waits, or fills the array and leaves the encoding to
`process_request`, which encodes the array after a refusal as well.
-/

import PseudoRedis.Commands.Summary

namespace PseudoRedis

/-- None of the keys a blocking handler looks for is there. -/
def CommandFunc.Waits (dict : Dict Obj) (args : List Bss) : CommandFunc → Prop
  | .blpop | .brpop => args ≠ [] ∧ firstPresent dict args = none
  | .brpoplpush => ∃ src dst, args = [src, dst] ∧ dictLookUp dict src = none
  | _ => False

/-- The ways a blocking handler can end. -/
inductive BlockingRun (env : Env) (dict : Dict Obj) (waiting : Prop) (listed : Option Listing)
    (run : Run Obj) : Prop
  | stops (stop : Stop) (nothing : listed = none) (same : run = fun _ => .error stop)
  | refuses (dict' : Dict Obj) (s : String) (text : ErrorText s) (nothing : listed = none)
      (present : ¬ waiting) (same : run = failReply dict' s)
  | waits (nothing : listed = none)
      (same : run = returning dict eBlocked ∨ run = leaving dict [] eBlocked)
  | satisfied (dict' : Dict Obj) (elems : List Elem) (ret : Int)
      (listing : (Answer.silent ret).encodes (some elems) = listed)
      (code : ret = 0 ∨ ret = env.fallOff 0) (same : run = leaving dict' elems ret)

variable {env : Env} {dict : Dict Obj}

theorem blpopbrpopCommand_run (side : End) (args : List Bss) :
    BlockingRun env dict (args ≠ [] ∧ firstPresent dict args = none)
      (blpopbrpopListing side dict args) (blpopbrpopCommand side dict args) := by
  cases args with
  | nil => exact .refuses dict numArgs inferInstance rfl (fun waiting => waiting.1 rfl) rfl
  | cons first rest =>
    cases present : firstPresent dict (first :: rest) with
    | none =>
      simp only [blpopbrpopCommand, blpopbrpopListing, present]
      exact .waits rfl (Or.inr rfl)
    | some pair =>
      obtain ⟨key, obj⟩ := pair
      cases obj with
      | list entries =>
        simp only [blpopbrpopCommand, blpopbrpopListing, present]
        cases out : listPop side entries with
        | none => exact .stops .nullEntry rfl rfl
        | some pair => exact .satisfied _ _ 0 rfl (Or.inl rfl) rfl
      | _ =>
        simp only [blpopbrpopCommand, blpopbrpopListing, present]
        exact .refuses dict wrongType inferInstance rfl
          (fun waiting => Option.some_ne_none _ waiting.2) rfl

theorem brpoplpushCommand_run (args : List Bss) :
    BlockingRun env dict (∃ src dst, args = [src, dst] ∧ dictLookUp dict src = none)
      (brpoplpushListing env dict args) (brpoplpushCommand env dict args) := by
  rcases args with _ | ⟨src, _ | ⟨dst, _ | ⟨third, rest⟩⟩⟩
  · exact .refuses dict numArgs inferInstance rfl (by rintro ⟨src, dst, ⟨⟩, -⟩) rfl
  · exact .refuses dict numArgs inferInstance rfl (by rintro ⟨src, dst, ⟨⟩, -⟩) rfl
  · have present {obj : Obj} (answer : dictLookUp dict src = some obj) :
        ¬ ∃ first second, [src, dst] = [first, second] ∧ dictLookUp dict first = none := by
      rintro ⟨first, second, same, absent⟩
      cases same
      rw [answer] at absent
      cases absent
    have moved {dict' : Dict Obj} {entry : Bss} :
        BlockingRun env dict
          (∃ first second, [src, dst] = [first, second] ∧ dictLookUp dict first = none)
          (movedListing env (some entry)) (leaving dict' [⟨some entry, strNi⟩] (env.fallOff 0)) :=
      .satisfied dict' _ _ rfl (Or.inr rfl) rfl
    simp only [brpoplpushCommand, brpoplpushListing, rpoplpush, movedEntry]
    cases answer : dictLookUp dict src with
    | none => exact .waits (movedListing_none env) (Or.inl rfl)
    | some obj =>
      cases obj with
      | list entries =>
        simp only
        cases listPop .right entries with
        | none => exact .stops .nullEntry (movedListing_none env) rfl
        | some pair =>
          simp only
          cases dictLookUp (putList dict src src pair.2) dst with
          | none => exact moved
          | some target =>
            cases target with
            | list others => exact moved
            | _ => exact .stops .freedTwice (movedListing_none env) rfl
      | _ =>
        exact .refuses dict wrongType inferInstance (movedListing_none env) (present answer) rfl
  · exact .refuses dict numArgs inferInstance rfl (by rintro ⟨src, dst, ⟨⟩, -⟩) rfl

/-- Every blocking handler ends in one of these ways. -/
theorem blocking_run (env : Env) {func : CommandFunc} (blocks : func.blocks = true)
    (dict : Dict Obj) (args : List Bss) :
    BlockingRun env dict (func.Waits dict args) (func.listing env dict args)
      (func.run env dict args) := by
  cases func with
  | blpop => exact blpopbrpopCommand_run .left args
  | brpop => exact blpopbrpopCommand_run .right args
  | brpoplpush => exact brpoplpushCommand_run args
  | _ => cases blocks

end PseudoRedis
