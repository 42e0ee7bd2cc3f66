import Mathlib.Order.Lattice

/-! # Archives

Records are filed under keys that are handed out in increasing order. A record can be thrown
away, but it is not rewritten, and its key does not serve again.
-/

namespace Swayclip.Library

/-- The records that are filed, and a key from which on none has been handed out. -/
structure Archive (κ ν : Type*) where
  record : κ → Option ν
  next : κ

namespace Archive
variable {κ ν : Type*} [LinearOrder κ]

/-- What a later archive may look like: what is filed under an old key was filed there before. -/
structure Later (a b : Archive κ ν) : Prop where
  next : a.next ≤ b.next
  old : ∀ k < a.next, ∀ v, b.record k = some v → a.record k = some v

variable {a b c : Archive κ ν}

@[refl] theorem Later.refl (a : Archive κ ν) : a.Later a := ⟨le_rfl, fun _ _ _ h => h⟩

@[trans] theorem Later.trans (h : a.Later b) (h' : b.Later c) : a.Later c := by
  refine ⟨h.next.trans h'.next, fun k hk v hv => ?_⟩
  exact h.old k hk v (h'.old k (hk.trans_le h.next) v hv)

/-- A record that has been thrown away does not come back. -/
theorem Later.gone (h : a.Later b) {k : κ} (hk : k < a.next) (hgone : a.record k = none) :
    b.record k = none := by
  cases hv : b.record k with
  | none => rfl
  | some v =>
    have hold := h.old k hk v hv
    rw [hgone] at hold
    cases hold

/-- A record that is still there is the old one. -/
theorem Later.same (h : a.Later b) {k : κ} (hk : k < a.next) {v w : ν} (hv : a.record k = some v)
    (hw : b.record k = some w) : w = v :=
  Option.some.inj ((h.old k hk w hw).symm.trans hv)

/-- Some records are thrown away. -/
theorem Later.of_keeps (hnext : a.next ≤ b.next)
    (hkeeps : ∀ k, b.record k = a.record k ∨ b.record k = none) : a.Later b := by
  refine ⟨hnext, fun k _ v hv => ?_⟩
  rcases hkeeps k with hsame | hnone
  · exact hsame.symm.trans hv
  · rw [hnone] at hv
    cases hv

/-- One record is filed under the next key. -/
theorem Later.of_files (hnext : a.next ≤ b.next)
    (hothers : ∀ k, k ≠ a.next → b.record k = a.record k) : a.Later b :=
  ⟨hnext, fun k hk _ hv => (hothers k hk.ne).symm.trans hv⟩

end Archive

end Swayclip.Library
