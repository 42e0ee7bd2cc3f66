import Mathlib.Data.List.Basic
import Mathlib.Order.Bounds.Basic

/-! # Choosing while reading a list

A reader keeps the item of the highest rank that it has seen. While that rank is a certain one, a
preferred item takes the place of the item that is kept.
-/

namespace Swayclip.Library.Choice

variable {α κ : Type*} [LinearOrder κ] (rank : α → κ) (level : κ) (Preferred : α → Prop)

section Note
variable [DecidablePred Preferred]

/-- An item is read. -/
def note (kept : κ × Option α) (x : α) : κ × Option α :=
  let kept := if kept.1 < rank x then (rank x, some x) else kept
  if kept.1 = level ∧ Preferred x then (kept.1, some x) else kept

end Note

/-- What is kept is of the highest rank, and preferred where an item of the list is. -/
structure Chosen (xs : List α) (kept : κ × Option α) : Prop where
  member : ∃ x ∈ xs, kept = (rank x, some x)
  bound : ∀ x ∈ xs, rank x ≤ kept.1
  preferred : kept.1 = level → ∀ x ∈ xs, Preferred x → ∃ y, kept.2 = some y ∧ Preferred y

variable {rank level Preferred} {xs ys : List α} {kept kept' : κ × Option α}

/-! ## Which rank is chosen -/

theorem Chosen.isGreatest (h : Chosen rank level Preferred xs kept) :
    IsGreatest (rank '' {x | x ∈ xs}) kept.1 := by
  constructor
  · obtain ⟨x, hx, rfl⟩ := h.member
    exact ⟨x, hx, rfl⟩
  · rintro _ ⟨x, hx, rfl⟩
    exact h.bound x hx

/-- It does not depend on the order of the list. -/
theorem Chosen.rank_eq (h : Chosen rank level Preferred xs kept)
    (h' : Chosen rank level Preferred ys kept') (hsame : ∀ x, x ∈ xs ↔ x ∈ ys) :
    kept.1 = kept'.1 := by
  have hset : {x | x ∈ xs} = {x | x ∈ ys} := by
    ext x
    exact hsame x
  have hgreatest := h.isGreatest
  rw [hset] at hgreatest
  exact hgreatest.unique h'.isGreatest

/-! ## Reading -/

section Reading
variable [DecidablePred Preferred] {x : α}

theorem note_higher (h : kept.1 < rank x) :
    note rank level Preferred kept x = (rank x, some x) := by
  simp only [note, if_pos h]
  exact ite_self _

theorem note_preferred (h : ¬ kept.1 < rank x) (hlevel : kept.1 = level) (hx : Preferred x) :
    note rank level Preferred kept x = (kept.1, some x) := by
  simp only [note, if_neg h, if_pos (And.intro hlevel hx)]

theorem note_other (h : ¬ kept.1 < rank x) (hother : ¬ (kept.1 = level ∧ Preferred x)) :
    note rank level Preferred kept x = kept := by
  simp only [note, if_neg h, if_neg hother]

/-- A first item is kept. -/
theorem chosen_first {bottom : κ} (hbottom : bottom < rank x) :
    Chosen rank level Preferred [x] (note rank level Preferred (bottom, none) x) := by
  rw [note_higher hbottom]
  refine ⟨⟨x, List.mem_singleton_self x, rfl⟩, ?_, ?_⟩
  · intro y hy
    rw [List.mem_singleton.mp hy]
  · intro _ y hy hpreferred
    exact ⟨x, rfl, List.mem_singleton.mp hy ▸ hpreferred⟩

/-- A preferred item has the rank at which it counts. -/
theorem Chosen.read (hpreferred : ∀ x, Preferred x → rank x = level)
    (h : Chosen rank level Preferred xs kept) (x : α) :
    Chosen rank level Preferred (xs ++ [x]) (note rank level Preferred kept x) := by
  have hlast : x ∈ xs ++ [x] := List.mem_append_right _ (List.mem_singleton_self x)
  by_cases hhigher : kept.1 < rank x
  · rw [note_higher hhigher]
    refine ⟨⟨x, hlast, rfl⟩, ?_, ?_⟩
    · rw [List.forall_mem_append, List.forall_mem_singleton]
      exact ⟨fun y hy => (h.bound y hy).trans hhigher.le, le_rfl⟩
    · intro hlevel y hy hpreferredY
      rcases List.mem_append.mp hy with hy | hy
      · -- an earlier item of this rank would have been kept before
        have hrank := h.bound y hy
        rw [hpreferred y hpreferredY, ← hlevel] at hrank
        exact absurd hhigher (not_lt.mpr hrank)
      · exact ⟨x, rfl, List.mem_singleton.mp hy ▸ hpreferredY⟩
  · have hbound : ∀ y ∈ xs ++ [x], rank y ≤ kept.1 := by
      rw [List.forall_mem_append, List.forall_mem_singleton]
      exact ⟨h.bound, not_lt.mp hhigher⟩
    by_cases hother : kept.1 = level ∧ Preferred x
    · obtain ⟨hlevel, hx⟩ := hother
      rw [note_preferred hhigher hlevel hx]
      refine ⟨⟨x, hlast, ?_⟩, hbound, fun _ _ _ _ => ⟨x, rfl, hx⟩⟩
      rw [hlevel, hpreferred x hx]
    · rw [note_other hhigher hother]
      obtain ⟨y, hy, hkept⟩ := h.member
      refine ⟨⟨y, List.mem_append_left _ hy, hkept⟩, hbound, ?_⟩
      intro hlevel z hz hpreferredZ
      rcases List.mem_append.mp hz with hz | hz
      · exact h.preferred hlevel z hz hpreferredZ
      · rw [List.mem_singleton.mp hz] at hpreferredZ
        exact absurd ⟨hlevel, hpreferredZ⟩ hother

theorem Chosen.foldl (hpreferred : ∀ x, Preferred x → rank x = level)
    (h : Chosen rank level Preferred xs kept) (ys : List α) :
    Chosen rank level Preferred (xs ++ ys) (ys.foldl (note rank level Preferred) kept) := by
  induction ys generalizing xs kept with
  | nil =>
    rw [List.append_nil]
    exact h
  | cons y ys ih =>
    rw [List.append_cons, List.foldl_cons]
    exact ih (h.read hpreferred y)

/-- From below all ranks, a list that is not empty is read to a choice from it. -/
theorem chosen_of_ne_nil {bottom : κ} (hbottom : ∀ x, bottom < rank x)
    (hpreferred : ∀ x, Preferred x → rank x = level) (hxs : xs ≠ []) :
    Chosen rank level Preferred xs (xs.foldl (note rank level Preferred) (bottom, none)) := by
  cases xs with
  | nil => exact absurd rfl hxs
  | cons x xs => exact (chosen_first (hbottom x)).foldl hpreferred xs

end Reading

end Swayclip.Library.Choice
