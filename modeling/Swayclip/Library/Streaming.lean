import Mathlib.Data.List.Basic

/-! # A list on its way

A list is handed over in pieces through a buffer. Part of it has been sent, part waits in the
buffer, and the rest has not been read yet. Sending takes a piece off the front of the buffer,
and an empty buffer is filled from the rest.
-/

namespace Swayclip.Library.Streaming

variable {α : Type*} {whole sent pending rest : List α}

/-- What has been sent, what waits in the buffer and what is left are the whole list. -/
def InFlight (whole sent pending rest : List α) : Prop := sent ++ (pending ++ rest) = whole

/-- Nothing has been sent, and the buffer is empty. -/
theorem inFlight_unread (whole : List α) : InFlight whole [] [] whole := rfl

/-- The whole list is in the buffer. -/
theorem inFlight_buffered (whole : List α) : InFlight whole [] whole [] := by
  rw [InFlight, List.append_nil, List.nil_append]

theorem InFlight.send (h : InFlight whole sent pending rest) (n : ℕ) :
    InFlight whole (sent ++ pending.take n) (pending.drop n) rest := by
  rw [InFlight, List.append_assoc, ← List.append_assoc (pending.take n), List.take_append_drop]
  exact h

theorem InFlight.refill (h : InFlight whole sent [] rest) (n : ℕ) :
    InFlight whole sent (rest.take n) (rest.drop n) := by
  rw [InFlight, List.take_append_drop]
  exact h

theorem InFlight.isPrefix (h : InFlight whole sent pending rest) : sent <+: whole :=
  ⟨pending ++ rest, h⟩

theorem InFlight.complete (h : InFlight whole sent [] []) : sent = whole := by
  rw [← h, List.append_nil, List.append_nil]

/-- All has been sent exactly if nothing waits and nothing is left. -/
theorem InFlight.length (h : InFlight whole sent pending rest) :
    whole.length = sent.length + (pending.length + rest.length) := by
  rw [← h, List.length_append, List.length_append]

/-! ## Windows -/

/-- The `n` elements of a buffer from a position on. -/
def window (buffer : List α) (start n : ℕ) : List α := (buffer.drop start).take n

theorem window_length {buffer : List α} {start n : ℕ} (h : start + n ≤ buffer.length) :
    (window buffer start n).length = n := by
  rw [window, List.length_take, List.length_drop]
  omega

@[simp] theorem window_zero (buffer : List α) (start : ℕ) : window buffer start 0 = [] :=
  List.take_zero

/-- A window over the whole buffer. -/
theorem window_all {buffer : List α} {n : ℕ} (h : buffer.length = n) :
    window buffer 0 n = buffer := by
  rw [window, List.drop_zero, ← h, List.take_length]

theorem take_window {buffer : List α} {start n k : ℕ} (h : k ≤ n) :
    (window buffer start n).take k = window buffer start k := by
  rw [window, List.take_take, Nat.min_eq_left h, window]

theorem drop_window (buffer : List α) (start n k : ℕ) :
    (window buffer start n).drop k = window buffer (start + k) (n - k) := by
  rw [window, List.drop_take, List.drop_drop, window]

end Swayclip.Library.Streaming
