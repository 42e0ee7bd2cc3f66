import Mathlib.Algebra.Order.Group.Multiset
import Swayclip.Library.Ledger

/-! # Names in custody

Names are made, used and ended. Whoever made a name is its holder until it is ended; what is held
is a multiset, in which no name occurs twice. A trace that can be accounted for in this way uses no
name before it is made or after it is ended, ends none twice, and forgets none.
-/

namespace Swayclip.Library.Custody
open Ledger

variable {ι : Type*}

inductive Act (ι : Type*) where
  | made (i : ι)
  | used (i : ι)
  | ended (i : ι)
deriving DecidableEq

namespace Act

def makes : Act ι → Option ι
  | .made i => some i
  | _ => none

def ends : Act ι → Option ι
  | .ended i => some i
  | _ => none

/-- The name that has to be alive. -/
def needs : Act ι → Option ι
  | .used i | .ended i => some i
  | .made _ => none

theorem eq_made {a : Act ι} {i : ι} (h : a.makes = some i) : a = .made i := by
  cases a with
  | made j => exact congrArg made (Option.some.inj h)
  | used j => cases h
  | ended j => cases h

theorem eq_ended {a : Act ι} {i : ι} (h : a.ends = some i) : a = .ended i := by
  cases a with
  | made j => cases h
  | used j => cases h
  | ended j => exact congrArg ended (Option.some.inj h)

end Act

/-- The trace is accounted for, and these names are held in the end. -/
inductive Accounts : List (Act ι) → Multiset ι → Prop
  | nil : Accounts [] 0
  | make {trace : List (Act ι)} {held : Multiset ι} {i : ι} (h : Accounts trace held)
      (hfresh : .made i ∉ trace) : Accounts (trace ++ [.made i]) ({i} + held)
  | use {trace : List (Act ι)} {held : Multiset ι} {i : ι} (h : Accounts trace held)
      (hheld : i ∈ held) : Accounts (trace ++ [.used i]) held
  | finish {trace : List (Act ι)} {held : Multiset ι} {i : ι} (h : Accounts trace ({i} + held)) :
      Accounts (trace ++ [.ended i]) held

/-- What a trace that is accounted for keeps to. -/
structure Accounted (trace : List (Act ι)) (held : Multiset ι) : Prop where
  never : NeverAfter Act.ends Act.needs trace
  first : NeverAfter Act.needs Act.makes trace
  once : NeverAfter Act.makes Act.makes trace
  needed : ∀ a ∈ trace, ∀ i, a.needs = some i → .made i ∈ trace
  nodup : held.Nodup
  mem : ∀ i, i ∈ held ↔ .made i ∈ trace ∧ .ended i ∉ trace

section Accounted
variable {trace : List (Act ι)} {held : Multiset ι} {i : ι}

/-- One more event that does not come too late for what happened before. -/
theorem neverAfter_concat {ends uses : Act ι → Option ι} (h : NeverAfter ends uses trace)
    {a : Act ι} (ha : ∀ b ∈ trace, ∀ i, ends b = some i → uses a ≠ some i) :
    NeverAfter ends uses (trace ++ [a]) := by
  refine neverAfter_append.mpr ⟨h, neverAfter_singleton a, fun b hb c hc => ?_⟩
  rw [List.mem_singleton.mp hc]
  exact ha b hb

theorem Accounted.make (h : Accounted trace held) (hfresh : .made i ∉ trace) :
    Accounted (trace ++ [.made i]) ({i} + held) := by
  have hunneeded : ∀ b ∈ trace, b.needs ≠ some i := fun b hb hneeds =>
    hfresh (h.needed b hb i hneeds)
  refine ⟨neverAfter_concat h.never fun _ _ _ _ => by simp [Act.needs],
    neverAfter_concat h.first ?_, neverAfter_concat h.once ?_, ?_, ?_, fun j => ?_⟩
  · rintro b hb j hj ⟨⟩
    exact hunneeded b hb hj
  · rintro b hb j hj ⟨⟩
    exact hfresh (Act.eq_made hj ▸ hb)
  · intro b hb j hj
    rcases List.mem_append.mp hb with hb | hb
    · exact List.mem_append_left _ (h.needed b hb j hj)
    · rw [List.mem_singleton.mp hb] at hj
      cases hj
  · rw [Multiset.singleton_add, Multiset.nodup_cons]
    exact ⟨fun hi => hfresh ((h.mem i).mp hi).1, h.nodup⟩
  · have hended : .ended i ∉ trace := fun hmem => hunneeded _ hmem rfl
    by_cases hj : j = i
    · subst hj
      simp [hended]
    · simp [hj, h.mem j]

theorem Accounted.use (h : Accounted trace held) (hheld : i ∈ held) :
    Accounted (trace ++ [.used i]) held := by
  obtain ⟨hmade, hended⟩ := (h.mem i).mp hheld
  refine ⟨neverAfter_concat h.never ?_,
    neverAfter_concat h.first fun _ _ _ _ => by simp [Act.makes],
    neverAfter_concat h.once fun _ _ _ _ => by simp [Act.makes], ?_, h.nodup, fun j => ?_⟩
  · rintro b hb j hj ⟨⟩
    exact hended (Act.eq_ended hj ▸ hb)
  · intro b hb j hj
    rcases List.mem_append.mp hb with hb | hb
    · exact List.mem_append_left _ (h.needed b hb j hj)
    · rw [List.mem_singleton.mp hb] at hj
      obtain rfl := Option.some.inj hj
      exact List.mem_append_left _ hmade
  · simp [h.mem j]

theorem Accounted.finish (h : Accounted trace ({i} + held)) :
    Accounted (trace ++ [.ended i]) held := by
  obtain ⟨hmade, hended⟩ := (h.mem i).mp (by simp)
  have hcons : (i ::ₘ held).Nodup := Multiset.singleton_add i held ▸ h.nodup
  obtain ⟨hnot, hnodup⟩ := Multiset.nodup_cons.mp hcons
  refine ⟨neverAfter_concat h.never ?_,
    neverAfter_concat h.first fun _ _ _ _ => by simp [Act.makes],
    neverAfter_concat h.once fun _ _ _ _ => by simp [Act.makes], ?_, hnodup, fun j => ?_⟩
  · rintro b hb j hj ⟨⟩
    exact hended (Act.eq_ended hj ▸ hb)
  · intro b hb j hj
    rcases List.mem_append.mp hb with hb | hb
    · exact List.mem_append_left _ (h.needed b hb j hj)
    · rw [List.mem_singleton.mp hb] at hj
      obtain rfl := Option.some.inj hj
      exact List.mem_append_left _ hmade
  · have hj := h.mem j
    by_cases hi : j = i
    · subst hi
      simp [hnot]
    · simpa [hi] using hj

/-- Every derivation keeps to the rules. -/
theorem Accounts.accounted (h : Accounts trace held) : Accounted trace held := by
  induction h with
  | nil =>
    refine ⟨List.Pairwise.nil, List.Pairwise.nil, List.Pairwise.nil, ?_, Multiset.nodup_zero, ?_⟩
    · exact fun _ ha => absurd ha List.not_mem_nil
    · simp
  | make _ hfresh ih => exact ih.make hfresh
  | use _ hheld ih => exact ih.use hheld
  | finish _ ih => exact ih.finish

end Accounted

/-! ## Names that may be missing -/

/-- The name, if there is one. -/
def owned : Option ι → Multiset ι
  | none => 0
  | some i => {i}

@[simp] theorem owned_none : owned (none : Option ι) = 0 := rfl

@[simp] theorem owned_some (i : ι) : owned (some i) = {i} := rfl

end Swayclip.Library.Custody
