import Mathlib.Algebra.Order.BigOperators.Group.List
import Mathlib.Algebra.Order.Ring.Nat
import Mathlib.Data.List.Forall2

/-! # Texts in lines

A text in which every line is ended by a mark has as many marks as lines, so a text that is
written in pieces with a mark behind each has one line for each piece only if there is no mark
within a piece.
-/

namespace Swayclip.Library.Lines

variable {α β : Type*} [DecidableEq α] {mark : α}

/-- The mark comes behind each of the pieces. -/
def terminate (mark : α) (pieces : List (List α)) : List α := pieces.flatMap fun p => p ++ [mark]

theorem count_terminate (pieces : List (List α)) :
    (terminate mark pieces).count mark = pieces.length + (pieces.map (List.count mark)).sum := by
  induction pieces with
  | nil => rfl
  | cons p pieces ih =>
    rw [terminate, List.flatMap_cons, List.count_append, List.count_append,
      List.count_singleton_self]
    rw [terminate] at ih
    rw [ih, List.length_cons, List.map_cons, List.sum_cons]
    omega

/-- The text consists of one line for each item, with this relation between the two. -/
def Lists (mark : α) (R : List α → β → Prop) (text : List α) (items : List β) : Prop :=
  ∃ lines, text = terminate mark lines ∧ (∀ line ∈ lines, mark ∉ line) ∧
    List.Forall₂ R lines items

theorem lists_terminate_iff (mark : α) {R : List α → β → Prop} {piece : β → List α} {items : List β}
    (hR : ∀ item ∈ items, R (piece item) item) :
    Lists mark R (terminate mark (items.map piece)) items ↔ ∀ item ∈ items, mark ∉ piece item := by
  constructor
  · rintro ⟨lines, htext, hlines, hforall⟩
    have hcount := congrArg (List.count mark) htext
    have hzero : (lines.map (List.count mark)).sum = 0 := by
      apply List.sum_eq_zero
      intro n hn
      obtain ⟨line, hline, rfl⟩ := List.mem_map.mp hn
      exact List.count_eq_zero.mpr (hlines line hline)
    rw [count_terminate, count_terminate, hzero, hforall.length_eq, List.length_map] at hcount
    intro item hitem
    have hle : (piece item).count mark ≤ ((items.map piece).map (List.count mark)).sum :=
      List.le_sum_of_mem (List.mem_map_of_mem (List.mem_map_of_mem hitem))
    exact List.count_eq_zero.mp (by omega)
  · intro h
    refine ⟨items.map piece, rfl, ?_, ?_⟩
    · intro line hline
      obtain ⟨item, hitem, rfl⟩ := List.mem_map.mp hline
      exact h item hitem
    · rw [List.forall₂_map_left_iff]
      exact List.forall₂_same.mpr hR

end Swayclip.Library.Lines
