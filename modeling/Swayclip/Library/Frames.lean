import Mathlib.Data.List.Basic
import Swayclip.Library.Runs

/-! # Length-prefixed frames

A stream of frames, each a header of fixed size that tells how long its payload is. The
stream may arrive in pieces that never reach past the part being read. A cursor says where
in a frame the stream stands; a refused header ends it.
-/

namespace Swayclip.Library.Frames
open Library.Runs

variable {α : Type*}

/-- Headers of a fixed size, and the payload size each of them announces. -/
structure Format (α : Type*) where
  headerSize : ℕ
  headerSize_pos : 0 < headerSize
  payloadSize : List α → Option ℕ

/-- A frame with its payload in the pieces in which it arrived. -/
structure Frame (α : Type*) where
  header : List α
  size : ℕ
  pieces : List (List α)
deriving DecidableEq

namespace Frame

def payload (f : Frame α) : List α := f.pieces.flatten

/-- The stream did not end inside the payload. -/
def Whole (f : Frame α) : Prop := f.payload.length = f.size

instance (f : Frame α) : Decidable f.Whole := inferInstanceAs (Decidable (_ = _))

end Frame

/-- Where in a frame the stream stands. -/
inductive Cursor (α : Type*) where
  | header (got : List α)
  | payload (header : List α) (size : ℕ) (pieces : List (List α))
  | refused
deriving DecidableEq

variable (F : Format α)

namespace Cursor

def fresh : Cursor α := header []

def opened (got : List α) : Cursor α :=
  if got.length < F.headerSize then header got
  else match F.payloadSize got with
    | none => refused
    | some n => payload got n []

def step : Cursor α → List α → Cursor α
  | header got, p => opened F (got ++ p)
  | payload h n ps, p =>
    if (ps ++ [p]).flatten.length < n then payload h n (ps ++ [p]) else fresh
  | refused, _ => refused

def completed : Cursor α → List α → List (Frame α)
  | payload h n ps, p => if (ps ++ [p]).flatten.length < n then [] else [⟨h, n, ps ++ [p]⟩]
  | _, _ => []

def trailing : Cursor α → List (Frame α)
  | payload h n ps => [⟨h, n, ps⟩]
  | _ => []

/-- The piece stays within the part being read. -/
def Fits : Cursor α → List α → Prop
  | header got, p => got.length + p.length ≤ F.headerSize
  | payload _ n ps, p => (ps ++ [p]).flatten.length ≤ n
  | refused, _ => True

def inPayload : Cursor α → Bool
  | payload .. => true
  | _ => false

def missing : Cursor α → ℕ
  | payload _ n ps => n - ps.flatten.length
  | _ => 0

def read : Cursor α → List α
  | header got => got
  | payload h _ ps => h ++ ps.flatten
  | refused => []

/-- What every cursor of a run satisfies. -/
def Proper : Cursor α → Prop
  | header got => got.length < F.headerSize
  | payload h n ps => h.length = F.headerSize ∧ F.payloadSize h = some n ∧
      (ps = [] ∨ ps.flatten.length < n)
  | refused => True

theorem proper_fresh : (fresh : Cursor α).Proper F := F.headerSize_pos

variable {F}

theorem opened_proper {got : List α} (h : got.length ≤ F.headerSize) :
    (opened F got).Proper F := by
  unfold opened
  split
  · assumption
  · rename_i hlt
    cases hn : F.payloadSize got with
    | none => trivial
    | some n => exact ⟨by omega, hn, Or.inl rfl⟩

theorem opened_payload {got h : List α} {n : ℕ} {ps : List (List α)}
    (ho : opened F got = payload h n ps) : h = got ∧ ps = [] ∧ got.length ≥ F.headerSize := by
  unfold opened at ho
  split at ho
  · cases ho
  · rename_i hlt
    cases hn : F.payloadSize got with
    | none =>
      rw [hn] at ho
      cases ho
    | some m =>
      rw [hn] at ho
      cases ho
      exact ⟨rfl, rfl, Nat.le_of_not_lt hlt⟩

theorem step_proper {c : Cursor α} (hc : c.Proper F) {p : List α} (hp : c.Fits F p) :
    (c.step F p).Proper F := by
  cases c with
  | header got =>
    apply opened_proper
    rw [List.length_append]
    exact hp
  | payload h n ps =>
    simp only [step]
    split
    · rename_i hlt
      exact ⟨hc.1, hc.2.1, Or.inr hlt⟩
    · exact proper_fresh F
  | refused => trivial

end Cursor

/-- The frames of a stream that arrives in pieces, the last of them perhaps cut short. -/
def cut : Cursor α → List (List α) → List (Frame α)
  | c, [] => c.trailing
  | c, p :: ps => c.completed p ++ cut (c.step F p) ps

/-- The header and payload of each whole frame of a stream. -/
def whole (stream : List α) : List (List α × List α) :=
  if _h : F.headerSize ≤ stream.length then
    match F.payloadSize (stream.take F.headerSize) with
    | none => []
    | some n =>
      if (stream.drop F.headerSize).length < n then []
      else (stream.take F.headerSize, (stream.drop F.headerSize).take n) ::
        whole ((stream.drop F.headerSize).drop n)
  else []
termination_by stream.length
decreasing_by
  have := F.headerSize_pos
  simp only [List.length_drop]
  omega

variable {F}

theorem whole_of_short {stream : List α} (h : stream.length < F.headerSize) :
    whole F stream = [] := by
  rw [whole, dif_neg (by omega)]

theorem whole_of_refused {header rest : List α} (hh : header.length = F.headerSize)
    (hn : F.payloadSize header = none) : whole F (header ++ rest) = [] := by
  rw [whole]
  split
  · rw [List.take_left' hh, hn]
  · rfl

theorem whole_cons {header payload : List α} (rest : List α) (hh : header.length = F.headerSize)
    (hn : F.payloadSize header = some payload.length) :
    whole F (header ++ (payload ++ rest)) = (header, payload) :: whole F rest := by
  rw [whole, dif_pos (by simp [hh]), List.take_left' hh, List.drop_left' hh, hn]
  simp

theorem whole_of_cut_short {header payload : List α} {n : ℕ} (hh : header.length = F.headerSize)
    (hn : F.payloadSize header = some n) (hlt : payload.length < n) :
    whole F (header ++ payload) = [] := by
  rw [whole, dif_pos (by simp [hh]), List.take_left' hh, List.drop_left' hh, hn]
  simp [hlt]

theorem cut_refused (pieces : List (List α)) : cut F .refused pieces = [] := by
  induction pieces with
  | nil => rfl
  | cons p ps ih => exact ih

/-- Behind a refused header nothing matters. -/
theorem fits_refused (pieces : List (List α)) :
    Meets (Cursor.step F) (Cursor.Fits F) .refused pieces := by
  induction pieces with
  | nil => trivial
  | cons p ps ih => exact ⟨trivial, ih⟩

/-- At the end of the pieces, a frame without payload may be whole. -/
theorem cut_nil_whole {c : Cursor α} (hc : c.Proper F) (hrefused : c ≠ .refused) :
    ((cut F c []).filter (fun f => f.Whole)).map (fun f => (f.header, f.payload)) =
      whole F c.read := by
  cases c with
  | header got => simp [cut, Cursor.trailing, Cursor.read, whole_of_short hc]
  | payload h n ps =>
    obtain ⟨hh, hn, hpieces⟩ := hc
    simp only [cut, Cursor.trailing, Cursor.read]
    by_cases hlt : ps.flatten.length < n
    · rw [whole_of_cut_short hh hn hlt]
      simp [Frame.Whole, Frame.payload, -List.length_flatten, Nat.ne_of_lt hlt]
    · obtain rfl : ps = [] := hpieces.resolve_right hlt
      have heq : ([] : List (List α)).flatten.length = n := by simp at hlt ⊢; omega
      have hnil : whole F [] = [] := whole_of_short F.headerSize_pos
      have hwhole := whole_cons (F := F) [] hh (heq ▸ hn)
      rw [hnil, List.append_nil] at hwhole
      have hlast : (Frame.mk h n []).Whole := heq
      rw [hwhole, List.filter_cons_of_pos (by simpa using hlast)]
      rfl
  | refused => exact absurd rfl hrefused

/-- A stream whose pieces stay within the part being read is cut into the frames it has as
a whole. -/
theorem cut_whole {c : Cursor α} (hc : c.Proper F) (hrefused : c ≠ .refused)
    {pieces : List (List α)}
    (hfits : Meets (Cursor.step F) (Cursor.Fits F) c pieces) :
    ((cut F c pieces).filter (fun f => f.Whole)).map (fun f => (f.header, f.payload)) =
      whole F (c.read ++ pieces.flatten) := by
  induction pieces generalizing c with
  | nil =>
    rw [List.flatten_nil, List.append_nil]
    exact cut_nil_whole hc hrefused
  | cons p ps ih =>
    have hproper := Cursor.step_proper hc hfits.1
    cases c with
    | header got =>
      have hlen : (got ++ p).length ≤ F.headerSize := by
        rw [List.length_append]
        exact hfits.1
      simp only [cut, Cursor.completed, Cursor.step, List.nil_append, Cursor.read,
        List.flatten_cons, ← List.append_assoc]
      have htail := hfits.2
      simp only [Cursor.step] at htail hproper
      unfold Cursor.opened at htail hproper ⊢
      split
      · rename_i hlt
        rw [if_pos hlt] at htail
        exact ih hlt (by simp) htail
      · rename_i hlt
        have hh : (got ++ p).length = F.headerSize := by omega
        rw [if_neg hlt] at htail
        cases hn : F.payloadSize (got ++ p) with
        | none => rw [cut_refused, whole_of_refused hh hn]; rfl
        | some n =>
          rw [hn] at htail
          simpa [Cursor.read] using ih (c := .payload (got ++ p) n []) ⟨hh, hn, Or.inl rfl⟩
            (by simp) htail
    | payload h n qs =>
      obtain ⟨hh, hn, -⟩ := hc
      have hle : (qs ++ [p]).flatten.length ≤ n := hfits.1
      have htail := hfits.2
      simp only [cut, Cursor.completed, Cursor.step, Cursor.read, List.flatten_cons] at htail ⊢
      split
      · rename_i hlt
        rw [if_pos hlt] at htail
        have hrest := ih (c := .payload h n (qs ++ [p])) ⟨hh, hn, Or.inr hlt⟩ (by simp) htail
        simpa [Cursor.read, List.append_assoc] using hrest
      · rename_i hlt
        rw [if_neg hlt] at htail
        have heq : (qs ++ [p]).flatten.length = n := by omega
        have hrest := ih (c := .fresh) (Cursor.proper_fresh F) (by simp [Cursor.fresh]) htail
        have hhead := whole_cons (F := F) ps.flatten hh (heq ▸ hn)
        rw [List.flatten_append, List.flatten_singleton, List.append_assoc] at hhead
        rw [List.append_assoc, hhead]
        have hfirst : (Frame.mk h n (qs ++ [p])).Whole := heq
        rw [List.cons_append, List.nil_append, List.filter_cons_of_pos (by simpa using hfirst),
          List.map_cons, hrest]
        simp [Frame.payload, Cursor.read, Cursor.fresh]
    | refused => exact absurd rfl hrefused

end Swayclip.Library.Frames
