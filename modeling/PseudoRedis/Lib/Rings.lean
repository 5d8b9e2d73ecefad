/-
This file is the theory of rings: circular doubly linked lists over an arbitrary type of
nodes, with one node as the head. A path follows a pointer field from node to node; a ring
is a path that leaves the head, visits a sequence and comes back, together with the same
path the other way round. Linking a node in and unlinking one edit the two fields at two
places, and the sequence between the places is all that changes.

The backward half of a ring is the forward half of the ring of the other field with the
sequence reversed, so each lemma about one field is used for both.
-/

import Mathlib.Data.List.Nodup
import Mathlib.Logic.Function.Basic

namespace Rings

variable {Node : Type}

/-! ### Paths -/

/-- From one node the field leads through a sequence of nodes to another one. -/
def Path (field : Node → Node) : Node → List Node → Node → Prop
  | first, [], last => field first = last
  | first, node :: rest, last => field first = node ∧ Path field node rest last

/-- The node before the place after a prefix. -/
def before (head : Node) (front : List Node) : Node := front.getLastD head

/-- The node at the place before a suffix. -/
def after (head : Node) (back : List Node) : Node := back.headD head

theorem before_cons (head node : Node) (rest : List Node) :
    before head (node :: rest) = before node rest := by
  rw [before, List.getLastD_cons]
  rfl

theorem before_reverse (head : Node) (back : List Node) :
    before head back.reverse = after head back := by
  cases back with
  | nil => rfl
  | cons node rest => rw [before, after, List.reverse_cons, List.getLastD_concat]; rfl

theorem after_reverse (head : Node) (front : List Node) :
    after head front.reverse = before head front := by
  rw [← before_reverse, List.reverse_reverse]

theorem before_mem (head : Node) (front : List Node) : before head front ∈ head :: front := by
  rcases List.eq_nil_or_concat front with rfl | ⟨rest, node, rfl⟩
  · exact List.mem_cons_self
  · rw [before, List.concat_eq_append, List.getLastD_concat]
    exact List.mem_cons_of_mem _ (List.mem_append_right _ List.mem_cons_self)

theorem after_mem (head : Node) (back : List Node) : after head back ∈ head :: back := by
  cases back with
  | nil => exact List.mem_cons_self
  | cons node rest => exact List.mem_cons_of_mem _ List.mem_cons_self

theorem before_mem_append (head : Node) (front back : List Node) :
    before head front ∈ head :: (front ++ back) :=
  List.mem_append_left back (before_mem head front)

theorem after_mem_append (head : Node) (front back : List Node) :
    after head back ∈ head :: (front ++ back) := by
  rcases List.mem_cons.mp (after_mem head back) with same | inBack
  · rw [same]
    exact List.mem_cons_self
  · exact List.mem_cons_of_mem _ (List.mem_append_right front inBack)

/-- A path only reads the field at the nodes it leaves. -/
theorem Path.congr {field field' : Node → Node} {first last : Node} {nodes : List Node}
    (path : Path field first nodes last)
    (same : ∀ node ∈ first :: nodes, field' node = field node) :
    Path field' first nodes last := by
  induction nodes generalizing first with
  | nil => exact (same first List.mem_cons_self).trans path
  | cons node rest inductionHypothesis =>
    refine ⟨(same first List.mem_cons_self).trans path.1, inductionHypothesis path.2 ?_⟩
    exact fun other member => same other (List.mem_cons_of_mem _ member)

/-- The field at the last node of a prefix leads to the first node of the rest. -/
theorem Path.field_before {field : Node → Node} {first last : Node} {front back : List Node}
    (path : Path field first (front ++ back) last) :
    field (before first front) = after last back := by
  induction front generalizing first with
  | nil =>
    cases back with
    | nil => exact path
    | cons node rest => exact path.1
  | cons node rest inductionHypothesis =>
    have step := inductionHypothesis path.2
    rwa [before_cons]

section Editing

variable [DecidableEq Node] {field : Node → Node} {first last target : Node}
  {front back : List Node}

/-- Linking a node in between a prefix and a suffix. -/
theorem Path.insert (path : Path field first (front ++ back) last)
    (nodup : (first :: (front ++ back)).Nodup) (fresh : target ∉ first :: (front ++ back)) :
    Path (Function.update (Function.update field (before first front) target) target
      (after last back)) first (front ++ target :: back) last := by
  induction front generalizing first with
  | nil =>
    have apart : first ≠ target := fun same => fresh (same ▸ List.mem_cons_self)
    refine ⟨?_, ?_⟩
    · rw [Function.update_of_ne apart]
      exact Function.update_self _ _ _
    · cases back with
      | nil => exact Function.update_self _ _ _
      | cons node rest =>
        refine ⟨Function.update_self _ _ _, path.2.congr fun other member => ?_⟩
        have later : other ≠ first := fun same => (List.nodup_cons.mp nodup).1 (same ▸ member)
        have known : other ≠ target := fun same =>
          fresh (same ▸ List.mem_cons_of_mem _ member)
        rw [Function.update_of_ne known]
        exact Function.update_of_ne later _ _
  | cons node rest inductionHypothesis =>
    have known : first ≠ target := fun same => fresh (same ▸ List.mem_cons_self)
    have later : first ≠ before node rest := by
      intro same
      refine (List.nodup_cons.mp nodup).1 (same ▸ ?_)
      exact List.mem_append_left back (before_mem node rest)
    have step := inductionHypothesis path.2 (List.nodup_cons.mp nodup).2
      fun member => fresh (List.mem_cons_of_mem _ member)
    rw [before_cons]
    refine ⟨?_, step⟩
    rw [Function.update_of_ne known, Function.update_of_ne later]
    exact path.1

/-- Unlinking a node between a prefix and a suffix. -/
theorem Path.remove (path : Path field first (front ++ target :: back) last)
    (nodup : (first :: (front ++ target :: back)).Nodup) :
    Path (Function.update field (before first front) (after last back)) first (front ++ back)
      last := by
  induction front generalizing first with
  | nil =>
    have kept : ∀ other ∈ target :: back, other ≠ first := fun other member same =>
      (List.nodup_cons.mp nodup).1 (same ▸ member)
    cases back with
    | nil => exact Function.update_self _ _ _
    | cons node rest =>
      refine ⟨Function.update_self _ _ _, path.2.2.congr fun other member => ?_⟩
      exact Function.update_of_ne (kept other (List.mem_cons_of_mem _ member)) _ _
  | cons node rest inductionHypothesis =>
    have later : first ≠ before node rest := by
      intro same
      refine (List.nodup_cons.mp nodup).1 (same ▸ ?_)
      exact List.mem_append_left _ (before_mem node rest)
    have step := inductionHypothesis path.2 (List.nodup_cons.mp nodup).2
    rw [before_cons]
    exact ⟨(Function.update_of_ne later _ _).trans path.1, step⟩

end Editing

/-! ### Rings -/

/-- Forward and backward the two fields visit a sequence of distinct nodes and return to the
head. -/
structure Ring (next prev : Node → Node) (head : Node) (seq : List Node) : Prop where
  forward : Path next head seq head
  backward : Path prev head seq.reverse head
  nodup : (head :: seq).Nodup

variable {next prev : Node → Node} {head : Node}

/-- The ring seen from its other side. -/
theorem Ring.swap {seq : List Node} (ring : Ring next prev head seq) :
    Ring prev next head seq.reverse := by
  refine ⟨ring.backward, ?_, ?_⟩
  · rw [List.reverse_reverse]
    exact ring.forward
  · rw [List.nodup_cons, List.mem_reverse, List.nodup_reverse]
    exact List.nodup_cons.mp ring.nodup

/-- A ring only reads the fields at its own nodes. -/
theorem Ring.congr {next' prev' : Node → Node} {seq : List Node} (ring : Ring next prev head seq)
    (sameNext : ∀ node ∈ head :: seq, next' node = next node)
    (samePrev : ∀ node ∈ head :: seq, prev' node = prev node) : Ring next' prev' head seq := by
  refine ⟨ring.forward.congr sameNext, ring.backward.congr fun node member => ?_, ring.nodup⟩
  rw [List.mem_cons, List.mem_reverse] at member
  exact samePrev node (List.mem_cons.mpr member)

theorem Ring.ne_head {seq : List Node} {node : Node} (ring : Ring next prev head seq)
    (member : node ∈ seq) : node ≠ head := fun same =>
  (List.nodup_cons.mp ring.nodup).1 (same ▸ member)

/-- A node stands at one place of its ring. -/
theorem Ring.once {front back : List Node} {node : Node}
    (ring : Ring next prev head (front ++ node :: back)) : node ∉ front ++ back :=
  (List.nodup_cons.mp (List.nodup_middle.mp (List.nodup_cons.mp ring.nodup).2)).1

/-- The head points to itself both ways. -/
theorem Ring.empty_iff : Ring next prev head [] ↔ next head = head ∧ prev head = head :=
  ⟨fun ring => ⟨ring.forward, ring.backward⟩,
    fun fields => ⟨fields.1, fields.2, List.nodup_singleton head⟩⟩

theorem Ring.next_before {front back : List Node} (ring : Ring next prev head (front ++ back)) :
    next (before head front) = after head back := ring.forward.field_before

theorem Ring.prev_after {front back : List Node} (ring : Ring next prev head (front ++ back)) :
    prev (after head back) = before head front := by
  have swapped := ring.swap
  rw [List.reverse_append] at swapped
  have field := swapped.next_before
  rwa [before_reverse, after_reverse] at field

/-- The first node of a ring, or its head. -/
theorem Ring.next_head {seq : List Node} (ring : Ring next prev head seq) :
    next head = after head seq :=
  @Ring.next_before _ _ _ _ [] _ ring

/-- The last node of a ring, or its head. -/
theorem Ring.prev_head {seq : List Node} (ring : Ring next prev head seq) :
    prev head = before head seq := by
  have whole : Ring next prev head (seq ++ []) := by rwa [List.append_nil]
  exact whole.prev_after

/-- The neighbours of a node. -/
theorem Ring.neighbours {front back : List Node} {node : Node}
    (ring : Ring next prev head (front ++ node :: back)) :
    next node = after head back ∧ prev node = before head front := by
  refine ⟨?_, ring.prev_after⟩
  have moved : Ring next prev head ((front ++ [node]) ++ back) := by
    rwa [List.append_assoc, List.singleton_append]
  have field := moved.next_before
  rwa [before, List.getLastD_concat] at field

/-- The head of a ring is found again where its first field leads nowhere else. -/
theorem Ring.next_eq_head_iff {seq : List Node} (ring : Ring next prev head seq) :
    next head = head ↔ seq = [] := by
  rw [ring.next_head]
  cases seq with
  | nil => exact iff_of_true rfl rfl
  | cons node rest =>
    refine iff_of_false (fun same => ?_) (List.cons_ne_nil _ _)
    exact (List.nodup_cons.mp ring.nodup).1 (same ▸ List.mem_cons_self)

section Linking

variable [DecidableEq Node] {front back : List Node} {target : Node}

/-- Linking a node in. -/
theorem Ring.insert (ring : Ring next prev head (front ++ back))
    (fresh : target ∉ head :: (front ++ back)) :
    Ring
      (Function.update (Function.update next (before head front) target) target (after head back))
      (Function.update (Function.update prev (after head back) target) target (before head front))
      head (front ++ target :: back) := by
  have swapped := ring.swap
  rw [List.reverse_append] at swapped
  have freshBack : target ∉ head :: (back.reverse ++ front.reverse) := by
    rw [← List.reverse_append, List.mem_cons, List.mem_reverse, ← List.mem_cons]
    exact fresh
  refine ⟨ring.forward.insert ring.nodup fresh, ?_, ?_⟩
  · have path := swapped.forward.insert swapped.nodup freshBack
    rw [before_reverse, after_reverse] at path
    rwa [List.reverse_append, List.reverse_cons, List.append_assoc, List.singleton_append]
  · have perm : (head :: (front ++ target :: back)).Perm (target :: head :: (front ++ back)) :=
      (List.perm_middle.cons head).trans (List.Perm.swap _ _ _)
    exact perm.nodup_iff.mpr (List.nodup_cons.mpr ⟨fresh, ring.nodup⟩)

/-- Unlinking a node. -/
theorem Ring.remove (ring : Ring next prev head (front ++ target :: back)) :
    Ring (Function.update next (before head front) (after head back))
      (Function.update prev (after head back) (before head front)) head (front ++ back) := by
  have swapped := ring.swap
  rw [List.reverse_append, List.reverse_cons, List.append_assoc, List.singleton_append] at swapped
  refine ⟨ring.forward.remove ring.nodup, ?_, ?_⟩
  · have path := swapped.forward.remove swapped.nodup
    rwa [before_reverse, after_reverse, ← List.reverse_append] at path
  · have sub : (head :: (front ++ back)).Sublist (head :: (front ++ target :: back)) :=
      ((List.sublist_cons_self target back).append_left front).cons_cons head
    exact sub.nodup ring.nodup

end Linking

end Rings
