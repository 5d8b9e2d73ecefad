/-
This file is the theory of chains: singly linked lists over an arbitrary type of nodes, with
a pointer to the first node and `none` at the end. A chain reads the pointer field of the
nodes it visits and of no others. Unlinking a node edits one pointer, the one that leads to
it, and every node before and after keeps its own; so does pointing a node at another chain.
-/

import Mathlib.Data.List.Nodup
import Mathlib.Logic.Function.Basic

namespace Chains

variable {Node : Type}

/-- The field leads from a pointer through a sequence of nodes to the end. -/
def Chain (next : Node → Option Node) : Option Node → List Node → Prop
  | start, [] => start = none
  | start, node :: rest => start = some node ∧ Chain next (next node) rest

variable {next next' : Node → Option Node} {start : Option Node} {front back : List Node}
  {node : Node}

/-- The pointer of a chain is its first node. -/
theorem Chain.start_eq {nodes : List Node} (chain : Chain next start nodes) :
    start = nodes.head? := by
  cases nodes with
  | nil => exact chain
  | cons node rest => exact chain.1

/-- A chain only reads the field at its own nodes. -/
theorem Chain.congr {nodes : List Node} (chain : Chain next start nodes)
    (same : ∀ node ∈ nodes, next' node = next node) : Chain next' start nodes := by
  induction nodes generalizing start with
  | nil => exact chain
  | cons node rest inductionHypothesis =>
    refine ⟨chain.1, ?_⟩
    rw [same node List.mem_cons_self]
    exact inductionHypothesis chain.2 fun other member => same other (List.mem_cons_of_mem _ member)

/-- The field at a node leads to the node after it. -/
theorem Chain.next_eq (chain : Chain next start (front ++ node :: back)) :
    next node = back.head? := by
  induction front generalizing start with
  | nil => exact chain.2.start_eq
  | cons first rest inductionHypothesis => exact inductionHypothesis chain.2

/-- The chain behind a node. -/
theorem Chain.behind (chain : Chain next start (front ++ node :: back)) :
    Chain next (next node) back := by
  induction front generalizing start with
  | nil => exact chain.2
  | cons first rest inductionHypothesis => exact inductionHypothesis chain.2

/-- What holds at the start and is passed on along the field holds all along the chain. -/
theorem Chain.forall_mem {P : Node → Prop} {nodes : List Node} (chain : Chain next start nodes)
    (first : ∀ node, start = some node → P node)
    (passed : ∀ node other, P node → next node = some other → P other) :
    ∀ node ∈ nodes, P node := by
  induction nodes generalizing start with
  | nil => exact fun _ member => absurd member List.not_mem_nil
  | cons head rest inductionHypothesis =>
    have here : P head := first head chain.1
    refine List.forall_mem_cons.mpr ⟨here, inductionHypothesis chain.2 fun other points => ?_⟩
    exact passed head other here points

/-- Unlinking the first node. -/
theorem Chain.tail (chain : Chain next start (node :: back)) : Chain next (next node) back :=
  chain.2

/-- Unlinking a node behind another one. -/
theorem Chain.unlink [DecidableEq Node] {prev : Node}
    (chain : Chain next start (front ++ prev :: node :: back))
    (nodup : (front ++ prev :: node :: back).Nodup) :
    Chain (Function.update next prev (next node)) start (front ++ prev :: back) := by
  induction front generalizing start with
  | nil =>
    refine ⟨chain.1, ?_⟩
    rw [Function.update_self]
    refine chain.2.2.congr fun other member => Function.update_of_ne ?_ _ _
    rintro rfl
    exact (List.nodup_cons.mp nodup).1 (List.mem_cons_of_mem _ member)
  | cons first rest inductionHypothesis =>
    have step := inductionHypothesis chain.2 (List.nodup_cons.mp nodup).2
    refine ⟨chain.1, ?_⟩
    rw [Function.update_of_ne]
    · exact step
    · rintro rfl
      exact (List.nodup_cons.mp nodup).1 (List.mem_append_right _ List.mem_cons_self)

/-- Pointing a node of a chain at another chain. -/
theorem Chain.redirect [DecidableEq Node] {prev : Node} {target : Option Node} {nodes : List Node}
    (chain : Chain next start (front ++ prev :: back)) (once : prev ∉ front)
    (goesOn : Chain next target nodes) (apart : prev ∉ nodes) :
    Chain (Function.update next prev target) start (front ++ prev :: nodes) := by
  induction front generalizing start with
  | nil =>
    refine ⟨chain.1, ?_⟩
    rw [Function.update_self]
    refine goesOn.congr fun other member => Function.update_of_ne ?_ _ _
    rintro rfl
    exact apart member
  | cons first rest inductionHypothesis =>
    rw [List.mem_cons, not_or] at once
    have step := inductionHypothesis chain.2 once.2
    refine ⟨chain.1, ?_⟩
    rwa [Function.update_of_ne (Ne.symm once.1)]

end Chains
