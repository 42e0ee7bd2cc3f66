import Mathlib.Data.List.Nodup
import Mathlib.Algebra.Order.Group.Int
import Mathlib.Order.MinMax

/-! # Reading a list in pages

A reader asks for a part of a list in pages of a fixed size, as long as the pages are full. A
position before the first one counts as the first, in each page anew.
-/

namespace Swayclip.Library.Paging

variable {α β : Type*} {size off remain : ℤ} {xs : List α}

/-- What is at `n` positions from `off` on. -/
def window (xs : List α) (off n : ℤ) : List α := (xs.drop off.toNat).take n.toNat

def paged (size : ℤ) (xs : List α) (off remain : ℤ) : List α :=
  if 0 < size ∧ 0 < remain then
    window xs off (min size remain) ++
      if (window xs off (min size remain)).length = min size remain then
        paged size xs (off + size) (remain - size)
      else []
  else []
termination_by remain.toNat
decreasing_by omega

theorem paged_of_pos (hsize : 0 < size) (h : 0 < remain) (xs : List α) (off : ℤ) :
    paged size xs off remain = window xs off (min size remain) ++
      if (window xs off (min size remain)).length = min size remain then
        paged size xs (off + size) (remain - size)
      else [] := by
  rw [paged, if_pos ⟨hsize, h⟩]

theorem paged_done (h : ¬ 0 < remain) (size : ℤ) (xs : List α) (off : ℤ) :
    paged size xs off remain = [] := by
  rw [paged, if_neg fun hboth => h hboth.2]

theorem window_done (h : ¬ 0 < remain) (xs : List α) (off : ℤ) : window xs off remain = [] := by
  rw [window, Int.toNat_of_nonpos (not_lt.mp h), List.take_zero]

theorem window_map (f : α → β) (xs : List α) (off n : ℤ) :
    (window xs off n).map f = window (xs.map f) off n := by
  simp only [window, List.map_take, List.map_drop]

theorem window_neg (hoff : off < 0) (xs : List α) (n : ℤ) : window xs off n = xs.take n.toNat := by
  rw [window, Int.toNat_of_nonpos hoff.le, List.drop_zero]

/-- From a position in the list, a page and the rest make up the whole part. -/
theorem window_split (hoff : 0 ≤ off) (hsize : 0 ≤ size) (hle : size ≤ remain) (xs : List α) :
    window xs off remain = window xs off size ++ window xs (off + size) (remain - size) := by
  have hremain : remain.toNat = size.toNat + (remain - size).toNat := by omega
  have hdrop : (off + size).toNat = off.toNat + size.toNat := by omega
  rw [window, hremain, List.take_add, List.drop_drop, ← hdrop]
  rfl

/-- A page that is not full ends with the list. -/
theorem window_part (hsize : 0 ≤ size) (hle : size ≤ remain)
    (hpart : (window xs off size).length ≠ size) : window xs off remain = window xs off size := by
  rw [window, List.length_take] at hpart
  rw [window, window, List.take_of_length_le (by omega), List.take_of_length_le (by omega)]

/-- From a position in the list, the pages make up what is asked for. -/
theorem paged_eq_window (hsize : 0 < size) (hoff : 0 ≤ off) (xs : List α) (remain : ℤ) :
    paged size xs off remain = window xs off remain := by
  induction off, remain using paged.induct size xs with
  | case1 off remain hpos ih =>
    rw [paged_of_pos hsize hpos.2]
    split
    · rw [ih (add_nonneg hoff hsize.le)]
      rcases le_total size remain with hle | hle
      · rw [min_eq_left hle, ← window_split hoff hsize.le hle]
      · rw [min_eq_right hle, window_done (show ¬ 0 < remain - size by omega), List.append_nil]
    · rename_i hpart
      rw [List.append_nil]
      exact (window_part (le_min hsize.le hpos.2.le) (min_le_right _ _) hpart).symm
  | case2 off remain hdone =>
    have hremain : ¬ 0 < remain := fun h => hdone ⟨hsize, h⟩
    rw [paged_done hremain, window_done hremain]

/-- From a position before the first one, one page makes up what is asked for. -/
theorem paged_eq_of_short (hsize : 0 < size) (hoff : off < 0)
    (hshort : remain ≤ size ∨ (xs.length : ℤ) < size) :
    paged size xs off remain = window xs off remain := by
  by_cases hremain : 0 < remain
  · rw [paged_of_pos hsize hremain]
    rcases le_or_gt remain size with hle | hgt
    · rw [min_eq_right hle, paged_done (by omega), ite_self, List.append_nil]
    · have hlength : (window xs off size).length ≠ size := by
        rw [window_neg hoff, List.length_take]
        omega
      rw [min_eq_left hgt.le, if_neg hlength, List.append_nil,
        window_part hsize.le hgt.le hlength]
  · rw [paged_done hremain, window_done hremain]

/-- A second page begins among the elements of the first one. -/
theorem paged_ne_of_long (hsize : 0 < size) (hnodup : xs.Nodup) (hoff : off < 0)
    (hmore : size < remain) (hlong : size ≤ xs.length) :
    paged size xs off remain ≠ window xs off remain := by
  intro heq
  have hfirst : window xs off size = xs.take size.toNat := window_neg hoff xs size
  have hfull : (window xs off size).length = size := by
    rw [hfirst, List.length_take]
    omega
  have hsplit : window xs off remain =
      xs.take size.toNat ++ (xs.drop size.toNat).take (remain - size).toNat := by
    rw [window_neg hoff, show remain.toNat = size.toNat + (remain - size).toNat by omega,
      List.take_add]
  rw [paged_of_pos hsize (by omega), min_eq_left hmore.le, if_pos hfull, hsplit, hfirst,
    List.append_cancel_left_eq, paged_of_pos hsize (by omega)] at heq
  have hinside : (off + size).toNat < xs.length := by omega
  have hsecond : xs[(off + size).toNat] ∈ window xs (off + size) (min size (remain - size)) := by
    rw [window, List.drop_eq_getElem_cons hinside,
      show (min size (remain - size)).toNat = (min size (remain - size)).toNat - 1 + 1 by omega,
      List.take_succ_cons]
    exact List.mem_cons_self
  have hrest : xs[(off + size).toNat] ∈ xs.drop size.toNat :=
    List.mem_of_mem_take (heq ▸ List.mem_append_left _ hsecond)
  have hbegin : xs[(off + size).toNat] ∈ xs.take size.toNat :=
    List.mem_take_iff_getElem.mpr ⟨(off + size).toNat, by omega, rfl⟩
  rw [← List.take_append_drop size.toNat xs] at hnodup
  exact (List.nodup_append.mp hnodup).2.2 _ hbegin _ hrest rfl

/-- Where the pages make up what is asked for. -/
theorem paged_eq_window_iff (hsize : 0 < size) (hnodup : xs.Nodup) (off remain : ℤ) :
    paged size xs off remain = window xs off remain ↔
      0 ≤ off ∨ remain ≤ size ∨ (xs.length : ℤ) < size := by
  constructor
  · intro heq
    by_contra hlong
    simp only [not_or, not_le, not_lt] at hlong
    exact paged_ne_of_long hsize hnodup hlong.1 hlong.2.1 hlong.2.2 heq
  · intro h
    rcases le_or_gt 0 off with hoff | hoff
    · exact paged_eq_window hsize hoff xs remain
    · exact paged_eq_of_short hsize hoff (h.resolve_left (by omega))

end Swayclip.Library.Paging
