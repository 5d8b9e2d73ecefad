/-
This file is about taking some of the items of a sequence that satisfy a predicate out of
it: the first ones, or the last ones. The items that stay keep their order.
-/

import Mathlib.Data.List.Basic

namespace Removal

variable {Item : Type} {p : Item → Bool} {seq rest left : List Item} {item : Item} {count : Nat}

/-- `left` is the sequence without the first `count` items that satisfy the predicate. -/
def DropsFirst (p : Item → Bool) (count : Nat) (seq left : List Item) : Prop :=
  ∃ front back, seq = front ++ back ∧ front.countP p = count ∧
    left = front.filter (fun item => !p item) ++ back

/-- `left` is the sequence without the last `count` items that satisfy the predicate. -/
def DropsLast (p : Item → Bool) (count : Nat) (seq left : List Item) : Prop :=
  ∃ front back, seq = front ++ back ∧ back.countP p = count ∧
    left = front ++ back.filter fun item => !p item

theorem DropsFirst.none (p : Item → Bool) (seq : List Item) : DropsFirst p 0 seq seq :=
  ⟨[], seq, rfl, rfl, rfl⟩

theorem DropsFirst.all (p : Item → Bool) (seq : List Item) :
    DropsFirst p (seq.countP p) seq (seq.filter fun item => !p item) :=
  ⟨seq, [], (List.append_nil _).symm, rfl, (List.append_nil _).symm⟩

/-- An item that stays. -/
theorem DropsFirst.skip (drops : DropsFirst p count rest left) (stays : p item = false) :
    DropsFirst p count (item :: rest) (item :: left) := by
  obtain ⟨front, back, rfl, counted, rfl⟩ := drops
  refine ⟨item :: front, back, rfl, ?_, ?_⟩
  · rw [List.countP_cons_of_neg (by simp only [stays, Bool.false_eq_true, not_false_eq_true]),
      counted]
  · rw [List.filter_cons_of_pos (by simp only [stays, Bool.not_false]), List.cons_append]

/-- An item that goes. -/
theorem DropsFirst.drop (drops : DropsFirst p count rest left) (goes : p item = true) :
    DropsFirst p (count + 1) (item :: rest) left := by
  obtain ⟨front, back, rfl, counted, rfl⟩ := drops
  refine ⟨item :: front, back, rfl, ?_, ?_⟩
  · rw [List.countP_cons_of_pos goes, counted]
  · rw [List.filter_cons_of_neg (by simp only [goes, Bool.not_true, Bool.false_eq_true,
      not_false_eq_true])]

/-- The first items of a sequence are the last ones of its reverse. -/
theorem DropsFirst.reverse (drops : DropsFirst p count seq left) :
    DropsLast p count seq.reverse left.reverse := by
  obtain ⟨front, back, rfl, counted, rfl⟩ := drops
  refine ⟨back.reverse, front.reverse, List.reverse_append, ?_, ?_⟩
  · rw [List.countP_reverse, counted]
  · rw [List.reverse_append, List.filter_reverse]

theorem DropsLast.none (p : Item → Bool) (seq : List Item) : DropsLast p 0 seq seq :=
  ⟨seq, [], (List.append_nil _).symm, rfl, (List.append_nil _).symm⟩

/-- What goes and what stays make up the sequence. -/
theorem DropsLast.length (drops : DropsLast p count seq left) :
    left.length + count = seq.length := by
  obtain ⟨front, back, rfl, rfl, rfl⟩ := drops
  rw [List.length_append, List.length_append, List.countP_eq_length_filter,
    @List.length_eq_length_filter_add _ back p, Nat.add_assoc,
    Nat.add_comm (back.filter fun item => !p item).length]

end Removal
