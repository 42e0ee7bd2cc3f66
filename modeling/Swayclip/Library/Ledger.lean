import Mathlib.Data.List.Basic

/-! # Names that are given up

Events of a trace use names and give names up. What was given up is not used again as long as
only living names are used and no name that was given up comes back to life: new names are
taken from a fresh supply.
-/

namespace Swayclip.Library.Ledger

variable {α ι : Type*} {ends uses : α → Option ι}

/-- No event uses a name after an event that gives it up. -/
def NeverAfter (ends uses : α → Option ι) (trace : List α) : Prop :=
  trace.Pairwise fun earlier later => ∀ i, ends earlier = some i → uses later ≠ some i

theorem neverAfter_append {trace later : List α} : NeverAfter ends uses (trace ++ later) ↔
    NeverAfter ends uses trace ∧ NeverAfter ends uses later ∧
      ∀ a ∈ trace, ∀ b ∈ later, ∀ i, ends a = some i → uses b ≠ some i :=
  List.pairwise_append

theorem neverAfter_singleton (a : α) : NeverAfter ends uses [a] :=
  List.pairwise_singleton _ _

theorem neverAfter_of_none {trace : List α} (h : ∀ a ∈ trace, ends a = none) :
    NeverAfter ends uses trace := by
  apply List.pairwise_of_forall_mem_list
  intro a ha b _ i hi
  rw [h a ha] at hi
  cases hi

theorem neverAfter_of_unused {trace : List α} (h : ∀ a ∈ trace, uses a = none) :
    NeverAfter ends uses trace := by
  apply List.pairwise_of_forall_mem_list
  intro a _ b hb i _ hi
  rw [h b hb] at hi
  cases hi

/-- What the trace gives up is neither alive nor in the fresh supply, and is not used. -/
structure Closed (ends uses : α → Option ι) (alive fresh : ι → Prop) (trace : List α) : Prop where
  gone : ∀ a ∈ trace, ∀ i, ends a = some i → ¬alive i ∧ ¬fresh i
  never : NeverAfter ends uses trace

theorem Closed.nil {alive fresh : ι → Prop} : Closed ends uses alive fresh ([] : List α) :=
  ⟨fun _ ha => absurd ha List.not_mem_nil, List.Pairwise.nil⟩

/-- Names may die, and fresh names may come to life. -/
theorem Closed.mono {alive fresh alive' fresh' : ι → Prop} {trace : List α}
    (h : Closed ends uses alive fresh trace) (halive : ∀ i, alive' i → alive i ∨ fresh i)
    (hfresh : ∀ i, fresh' i → fresh i) : Closed ends uses alive' fresh' trace := by
  constructor
  · intro a ha i hi
    obtain ⟨hdead, hold⟩ := h.gone a ha i hi
    exact ⟨fun hback => (halive i hback).elim hdead hold, fun hback => hold (hfresh i hback)⟩
  · exact h.never

/-- Further events use living names only. -/
theorem Closed.extend {alive fresh alive' fresh' : ι → Prop} {trace later : List α}
    (h : Closed ends uses alive fresh trace) (halive : ∀ i, alive' i → alive i ∨ fresh i)
    (hfresh : ∀ i, fresh' i → fresh i) (huses : ∀ a ∈ later, ∀ i, uses a = some i → alive i)
    (hends : ∀ a ∈ later, ∀ i, ends a = some i → ¬alive' i ∧ ¬fresh' i)
    (hlater : NeverAfter ends uses later) : Closed ends uses alive' fresh' (trace ++ later) := by
  constructor
  · intro a ha i hi
    obtain ha | ha := List.mem_append.mp ha
    · exact (h.mono halive hfresh).gone a ha i hi
    · exact hends a ha i hi
  · apply neverAfter_append.mpr
    refine ⟨h.never, hlater, ?_⟩
    intro a ha b hb i hi hu
    exact (h.gone a ha i hi).1 (huses b hb i hu)

end Swayclip.Library.Ledger
