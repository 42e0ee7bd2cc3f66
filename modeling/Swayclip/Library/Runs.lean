import Mathlib.Data.List.Basic
import Mathlib.Logic.Relation

/-! # Runs of a deterministic machine and what they record

A machine is a step function on states and inputs. A run feeds it a list of inputs.
Each step may also record something about itself; the record of a run is what its
steps recorded, in order. An invariant relates the record so far to the state.
-/

namespace Swayclip.Library.Runs

variable {σ ε ω : Type*}

/-- The state after a list of inputs. -/
def run (step : σ → ε → σ) (s : σ) (es : List ε) : σ := es.foldl step s

@[simp] theorem run_nil (step : σ → ε → σ) (s : σ) : run step s [] = s := rfl

@[simp] theorem run_cons (step : σ → ε → σ) (s : σ) (e : ε) (es : List ε) :
    run step s (e :: es) = run step (step s e) es := rfl

theorem run_append (step : σ → ε → σ) (s : σ) (es fs : List ε) :
    run step s (es ++ fs) = run step (run step s es) fs :=
  List.foldl_append

/-- What each of a few steps in a row keeps, they keep together. -/
theorem preserve {r : σ → σ → Prop} {P : σ → Prop} {s s' : σ} (h : Relation.ReflTransGen r s s')
    (hP : ∀ x y, r x y → P x → P y) (hs : P s) : P s' := by
  induction h with
  | refl => exact hs
  | tail _ hstep ih => exact hP _ _ hstep ih

/-- A machine that carries more along. -/
theorem run_map {τ : Type*} {step : σ → ε → σ} {step' : τ → ε → τ} {f : τ → σ}
    (h : ∀ x e, f (step' x e) = step (f x) e) (x : τ) (es : List ε) :
    f (run step' x es) = run step (f x) es := by
  induction es generalizing x with
  | nil => rfl
  | cons e es ih => rw [run_cons, ih, h, run_cons]

/-- Every step of the run meets the condition at the state it starts from. -/
def Meets (step : σ → ε → σ) (C : σ → ε → Prop) : σ → List ε → Prop
  | _, [] => True
  | s, e :: es => C s e ∧ Meets step C (step s e) es

instance Meets.decidable (step : σ → ε → σ) (C : σ → ε → Prop) [∀ s e, Decidable (C s e)] :
    ∀ s es, Decidable (Meets step C s es)
  | _, [] => isTrue trivial
  | s, e :: es => @instDecidableAnd _ _ _ (Meets.decidable step C (step s e) es)

theorem Meets.append {step : σ → ε → σ} {C : σ → ε → Prop} {s : σ} {es fs : List ε} :
    Meets step C s (es ++ fs) ↔ Meets step C s es ∧ Meets step C (run step s es) fs := by
  induction es generalizing s with
  | nil => simp [Meets]
  | cons e es ih => simp [Meets, ih, and_assoc]

theorem Meets.imp {step : σ → ε → σ} {C D : σ → ε → Prop} {s : σ} {es : List ε}
    (h : Meets step C s es) (hCD : ∀ s e, C s e → D s e) : Meets step D s es := by
  induction es generalizing s with
  | nil => trivial
  | cons e es ih => exact ⟨hCD s e h.1, ih h.2⟩

theorem Meets.and {step : σ → ε → σ} {C D : σ → ε → Prop} {s : σ} {es : List ε}
    (hC : Meets step C s es) (hD : Meets step D s es) :
    Meets step (fun s e => C s e ∧ D s e) s es := by
  induction es generalizing s with
  | nil => trivial
  | cons e es ih => exact ⟨⟨hC.1, hD.1⟩, ih hC.2 hD.2⟩

/-- What holds of every input may be added to the condition. -/
theorem Meets.and_of_mem {step : σ → ε → σ} {C : σ → ε → Prop} {D : ε → Prop} {s : σ} {es : List ε}
    (h : Meets step C s es) (hD : ∀ e ∈ es, D e) : Meets step (fun s e => C s e ∧ D e) s es := by
  induction es generalizing s with
  | nil => trivial
  | cons e es ih =>
    exact ⟨⟨h.1, hD e List.mem_cons_self⟩, ih h.2 fun e he => hD e (List.mem_cons_of_mem _ he)⟩

theorem Meets.map {τ : Type*} {step : σ → ε → σ} {step' : τ → ε → τ} {f : τ → σ}
    {C : σ → ε → Prop} (h : ∀ x e, f (step' x e) = step (f x) e) {x : τ} {es : List ε} :
    Meets step' (fun x e => C (f x) e) x es ↔ Meets step C (f x) es := by
  induction es generalizing x with
  | nil => exact Iff.rfl
  | cons e es ih => rw [Meets, ih, h, Meets]

/-- Some inputs meet the condition at every state. -/
theorem Meets.of_mem {step : σ → ε → σ} {C : σ → ε → Prop} {s : σ} {es : List ε}
    (h : ∀ e ∈ es, ∀ s, C s e) : Meets step C s es := by
  induction es generalizing s with
  | nil => trivial
  | cons e es ih =>
    exact ⟨h e List.mem_cons_self s, ih fun e he => h e (List.mem_cons_of_mem _ he)⟩

theorem Meets.congr {step : σ → ε → σ} {C D : σ → ε → Prop} (h : ∀ s e, C s e ↔ D s e) {s : σ}
    {es : List ε} : Meets step C s es ↔ Meets step D s es :=
  ⟨fun hC => hC.imp fun s e => (h s e).mp, fun hD => hD.imp fun s e => (h s e).mpr⟩

/-- An invariant that each step keeps may be added to the condition. -/
theorem Meets.and_invariant {step : σ → ε → σ} {C : σ → ε → Prop} {I : σ → Prop}
    (hstep : ∀ s e, I s → C s e → I (step s e)) {s : σ} {es : List ε} (h : I s)
    (hC : Meets step C s es) : Meets step (fun s e => I s ∧ C s e) s es := by
  induction es generalizing s with
  | nil => trivial
  | cons e es ih => exact ⟨⟨h, hC.1⟩, ih (hstep s e h hC.1) hC.2⟩

/-- Two conditions that agree wherever an invariant holds, which the first one keeps, are met
by the same runs. -/
theorem Meets.iff_of_invariant {step : σ → ε → σ} {C D : σ → ε → Prop} {I : σ → Prop} {es : List ε}
    (hiff : ∀ s, ∀ e ∈ es, I s → (C s e ↔ D s e))
    (hstep : ∀ s, ∀ e ∈ es, I s → C s e → I (step s e)) {s : σ} (h : I s) :
    Meets step C s es ↔ Meets step D s es := by
  induction es generalizing s with
  | nil => exact Iff.rfl
  | cons e es ih =>
    have htail := @ih (fun s e he => hiff s e (List.mem_cons_of_mem _ he))
      (fun s e he => hstep s e (List.mem_cons_of_mem _ he)) (step s e)
    have hhead := hiff s e List.mem_cons_self h
    have hnext := hstep s e List.mem_cons_self h
    exact ⟨fun hC => ⟨hhead.mp hC.1, (htail (hnext hC.1)).mp hC.2⟩,
      fun hD => ⟨hhead.mpr hD.1, (htail (hnext (hhead.mpr hD.1))).mpr hD.2⟩⟩

/-- Two conditions that agree along a run that meets a third one, by an invariant of it. -/
theorem Meets.iff_of_meets {step : σ → ε → σ} {A C D : σ → ε → Prop} {I : σ → Prop}
    (hiff : ∀ s e, I s → A s e → (C s e ↔ D s e)) (hstep : ∀ s e, I s → A s e → I (step s e))
    {s : σ} {es : List ε} (h : I s) (hA : Meets step A s es) :
    Meets step C s es ↔ Meets step D s es := by
  have hI := hA.and_invariant hstep h
  constructor
  · exact fun hC => (hI.and hC).imp fun s e hs => (hiff s e hs.1.1 hs.1.2).mp hs.2
  · exact fun hD => (hI.and hD).imp fun s e hs => (hiff s e hs.1.1 hs.1.2).mpr hs.2

/-- What the steps of the run record, in order. -/
def record (step : σ → ε → σ) (note : σ → ε → List ω) : σ → List ε → List ω
  | _, [] => []
  | s, e :: es => note s e ++ record step note (step s e) es

/-- What is noted along a run is what its steps note. -/
theorem meets_record {step : σ → ε → σ} {note : σ → ε → List ω} {P : ω → Prop} {s : σ}
    {es : List ε} : Meets step (fun s e => ∀ w ∈ note s e, P w) s es ↔
      ∀ w ∈ record step note s es, P w := by
  induction es generalizing s with
  | nil => simp [Meets, record]
  | cons e es ih => rw [Meets, ih, record, List.forall_mem_append]

/-- An invariant of states and records that each step keeps holds after every run. -/
theorem run_record_invariant {step : σ → ε → σ} {note : σ → ε → List ω} {C : σ → ε → Prop}
    {I : List ω → σ → Prop}
    (hstep : ∀ log s e, I log s → C s e → I (log ++ note s e) (step s e))
    {log : List ω} {s : σ} {es : List ε} (h : I log s) (hC : Meets step C s es) :
    I (log ++ record step note s es) (run step s es) := by
  induction es generalizing log s with
  | nil => simpa [record] using h
  | cons e es ih =>
    have hnext := ih (hstep log s e h hC.1) hC.2
    rwa [List.append_assoc] at hnext

/-- The same for an invariant of states alone. -/
theorem run_invariant {step : σ → ε → σ} {C : σ → ε → Prop} {I : σ → Prop}
    (hstep : ∀ s e, I s → C s e → I (step s e)) {s : σ} {es : List ε} (h : I s)
    (hC : Meets step C s es) : I (run step s es) := by
  induction es generalizing s with
  | nil => exact h
  | cons e es ih => exact ih (hstep s e h hC.1) hC.2

/-- Where a step that is possible keeps a property exactly if it meets the condition, the property
holds all along the possible runs whose steps meet it, and no others. -/
theorem throughout_iff_of_meets {step : σ → ε → σ} {A C : σ → ε → Prop} {I P : σ → Prop}
    (hstep : ∀ s e, I s → A s e → I (step s e))
    (hiff : ∀ s e, I s → P s → A s e → (P (step s e) ↔ C s e)) {s : σ} {es : List ε} (hI : I s)
    (hP : P s) (hA : Meets step A s es) :
    (∀ fs, fs <+: es → P (run step s fs)) ↔ Meets step C s es := by
  induction es generalizing s with
  | nil => simp [Meets, hP]
  | cons e es ih =>
    constructor
    · intro h
      have hnext : P (step s e) := h [e] (List.prefix_append [e] es)
      refine ⟨(hiff s e hI hP hA.1).mp hnext, (ih (hstep s e hI hA.1) hnext hA.2).mp ?_⟩
      intro fs hfs
      exact h (e :: fs) ((List.prefix_cons_inj e).mpr hfs)
    · intro h fs hfs
      cases fs with
      | nil => exact hP
      | cons f fs =>
        obtain ⟨rfl, hpre⟩ := List.cons_prefix_cons.mp hfs
        have hnext : P (step s f) := (hiff s f hI hP hA.1).mpr h.1
        exact (ih (hstep s f hI hA.1) hnext hA.2).mpr h.2 fs hpre

/-- The same where every step is possible. -/
theorem throughout_iff {step : σ → ε → σ} {C : σ → ε → Prop} {I P : σ → Prop}
    (hstep : ∀ s e, I s → I (step s e)) (hiff : ∀ s e, I s → P s → (P (step s e) ↔ C s e))
    {s : σ} {es : List ε} (hI : I s) (hP : P s) :
    (∀ fs, fs <+: es → P (run step s fs)) ↔ Meets step C s es :=
  throughout_iff_of_meets (A := fun _ _ => True) (fun s e hs _ => hstep s e hs)
    (fun s e hs hp _ => hiff s e hs hp) hI hP (Meets.of_mem fun _ _ _ => trivial)

/-- The same where only the steps that meet the condition keep the invariant. -/
theorem throughout_iff_of_kept {step : σ → ε → σ} {C : σ → ε → Prop} {I P : σ → Prop}
    (hstep : ∀ s e, I s → C s e → I (step s e)) (hiff : ∀ s e, I s → (P (step s e) ↔ C s e))
    {s : σ} {es : List ε} (hI : I s) (hP : P s) :
    (∀ fs, fs <+: es → P (run step s fs)) ↔ Meets step C s es := by
  induction es generalizing s with
  | nil => simp [Meets, hP]
  | cons e es ih =>
    have hrest : C s e → ((∀ fs, fs <+: es → P (run step (step s e) fs)) ↔
        Meets step C (step s e) es) := fun hC => ih (hstep s e hI hC) ((hiff s e hI).mpr hC)
    constructor
    · intro h
      have hC : C s e := (hiff s e hI).mp (h [e] (List.prefix_append [e] es))
      exact ⟨hC, (hrest hC).mp fun fs hfs => h (e :: fs) ((List.prefix_cons_inj e).mpr hfs)⟩
    · intro h fs hfs
      cases fs with
      | nil => exact hP
      | cons f fs =>
        obtain ⟨rfl, hpre⟩ := List.cons_prefix_cons.mp hfs
        exact (hrest h.1).mpr h.2 fs hpre

end Swayclip.Library.Runs
