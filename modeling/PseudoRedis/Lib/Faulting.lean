/-
This file is the theory of code over a memory that can fault: a read or an assignment either
gives a value and the memory after it or ends the run. To show that code does not fault is to
say where it ends, and that is composed along the code: what a sequence ends with is what its
second part ends with, begun where the first part ends.
-/

import Mathlib.Logic.Basic

namespace Faulting

variable {Fault Memory Value Other : Type} {memory memory' memory'' : Memory} {value : Value}
  {other : Other}

/-- Code over a memory. -/
abbrev Code (Fault Memory Value : Type) := StateT Memory (Except Fault) Value

/-- From one memory the code comes to its end, with a value and another memory. -/
def Ends (code : Code Fault Memory Value) (memory : Memory) (value : Value) (memory' : Memory) :
    Prop :=
  code memory = .ok (value, memory')

theorem Ends.pure (memory : Memory) (value : Value) :
    Ends (pure value : Code Fault Memory Value) memory value memory :=
  rfl

/-- The rule of sequence. -/
theorem Ends.bind {code : Code Fault Memory Value} {next : Value → Code Fault Memory Other}
    (first : Ends code memory value memory') (second : Ends (next value) memory' other memory'') :
    Ends (code >>= next) memory other memory'' := by
  show Except.bind (code memory) (fun result => next result.1 result.2) = _
  rw [show code memory = _ from first]
  exact second

/-- The rule of choice, where the condition holds. -/
theorem Ends.ifPos {condition : Prop} [Decidable condition] {code code' : Code Fault Memory Value}
    (holds : condition) (ends : Ends code memory value memory') :
    Ends (if condition then code else code') memory value memory' := by
  rwa [if_pos holds]

/-- The rule of choice, where it does not. -/
theorem Ends.ifNeg {condition : Prop} [Decidable condition] {code code' : Code Fault Memory Value}
    (fails : ¬ condition) (ends : Ends code' memory value memory') :
    Ends (if condition then code else code') memory value memory' := by
  rwa [if_neg fails]

/-- Code comes to one end. -/
theorem Ends.unique {code : Code Fault Memory Value} {value' : Value}
    (ends : Ends code memory value memory') (ends' : Ends code memory value' memory'') :
    value = value' ∧ memory' = memory'' := by
  have same := (show code memory = _ from ends).symm.trans ends'
  rw [Except.ok.injEq, Prod.mk.injEq] at same
  exact same

end Faulting
