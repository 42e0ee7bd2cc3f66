import Mathlib.Data.Nat.Notation
import Mathlib.Logic.Function.Iterate
import Mathlib.Tactic.SplitIfs
import Mathlib.Tactic.Use

/-! # Sending requests to the compositor

`wayland_ct_flush` asks `poll` for `POLLOUT` when the socket of the display is full, but goes on
only when `POLLIN` is reported.
-/

namespace Swayclip

structure PollEvents where
  pollin : Bool
  pollout : Bool

/-- What `poll` reports: of the two only what it was asked for, and `POLLHUP`, `POLLERR` or
`POLLNVAL` at any time. -/
structure Revents (asked : PollEvents) where
  pollin : Bool
  pollout : Bool
  failed : Bool
  in_asked : pollin = true → asked.pollin = true
  out_asked : pollout = true → asked.pollout = true

inductive Polled (asked : PollEvents) where
  | timeout
  | error
  | events (revents : Revents asked)

inductive Flushed where
  | ok
  | eagain
  | error
deriving DecidableEq

def flushEvents : PollEvents := ⟨false, true⟩

inductive FlushPhase where
  | flushing
  | polling
  | returned (ret : Bool)
deriving DecidableEq

/-- What the calls turn out to be: `flushes i` that of `wl_display_flush` after `i` earlier ones,
`polls i j` that of `poll` after `i` calls of `wl_display_flush` and `j` of `poll` since. -/
structure Display where
  flushes : ℕ → Flushed
  polls : ℕ → ℕ → Polled flushEvents

/-- The state of a call of `wayland_ct_flush`, with the number of its calls. -/
structure Flushing where
  phase : FlushPhase
  flushed : ℕ
  polled : ℕ
deriving DecidableEq

namespace Flushing

def start : Flushing := ⟨.flushing, 0, 0⟩

def step (d : Display) (f : Flushing) : Flushing :=
  match f.phase with
  | .flushing =>
    match d.flushes f.flushed with
    | .ok => ⟨.returned true, f.flushed + 1, 0⟩
    | .eagain => ⟨.polling, f.flushed + 1, 0⟩
    | .error => ⟨.returned false, f.flushed + 1, 0⟩
  | .polling =>
    match d.polls f.flushed f.polled with
    | .timeout => { f with phase := .returned false }
    | .error => { f with phase := .returned false }
    | .events revents =>
      if revents.pollin then { f with phase := .flushing, polled := f.polled + 1 }
      else if revents.failed then { f with phase := .returned false }
      else { f with polled := f.polled + 1 }
  | .returned _ => f

/-- `wayland_ct_flush` after so many calls. -/
def waylandCtFlush (d : Display) (n : ℕ) : Flushing := (step d)^[n] start

@[simp]
theorem waylandCtFlush_zero (d : Display) : waylandCtFlush d 0 = start := rfl

theorem waylandCtFlush_succ (d : Display) (n : ℕ) :
    waylandCtFlush d (n + 1) = step d (waylandCtFlush d n) :=
  Function.iterate_succ_apply' (step d) n start

/-- Only `POLLOUT` is asked for, so that `POLLIN` is never reported. -/
theorem pollin_unreported (revents : Revents flushEvents) : revents.pollin = false := by
  cases hr : revents.pollin with
  | false => rfl
  | true => exact absurd (revents.in_asked hr) (by simp [flushEvents])

/-- A step of the inner loop polls again or gives up. -/
theorem step_polling (d : Display) (f : Flushing) (hp : f.phase = .polling) :
    (step d f).phase = .polling ∨ (step d f).phase = .returned false := by
  unfold step
  rw [hp]
  cases d.polls f.flushed f.polled with
  | timeout => simp
  | error => simp
  | events revents =>
    simp only [pollin_unreported, Bool.false_eq_true, if_false]
    split_ifs <;> simp

theorem step_returned (d : Display) (f : Flushing) (ret : Bool) (hr : f.phase = .returned ret) :
    step d f = f := by
  unfold step
  rw [hr]

/-- After an `EAGAIN` the flush is never called again. -/
theorem phase_after_eagain (d : Display) (he : d.flushes 0 = .eagain) (n : ℕ) :
    (waylandCtFlush d (n + 1)).phase = .polling ∨
      (waylandCtFlush d (n + 1)).phase = .returned false := by
  induction n with
  | zero => simp [waylandCtFlush_succ, start, step, he]
  | succ n ih =>
    rw [waylandCtFlush_succ]
    cases ih with
    | inl hp => exact step_polling d _ hp
    | inr hr =>
      right
      rw [step_returned d _ false hr, hr]

/-- With a display that is always writable, the inner loop spins forever. -/
theorem polling_forever (d : Display) (he : d.flushes 0 = .eagain)
    (hw : ∀ i j, ∃ revents, d.polls i j = .events revents ∧ revents.failed = false) (n : ℕ) :
    (waylandCtFlush d (n + 1)).phase = .polling := by
  induction n with
  | zero => simp [waylandCtFlush_succ, start, step, he]
  | succ n ih =>
    obtain ⟨revents, hp, hf⟩ :=
      hw (waylandCtFlush d (n + 1)).flushed (waylandCtFlush d (n + 1)).polled
    rw [waylandCtFlush_succ]
    unfold step
    simp [ih, hp, hf, pollin_unreported]

/-- Each `EAGAIN` is followed by a `poll` that reports the display writable and by a later flush
that succeeds, and until then no flush fails otherwise. -/
structure Obliging (d : Display) : Prop where
  writable : ∀ i, d.flushes i = .eagain →
    ∃ revents, d.polls (i + 1) 0 = .events revents ∧ revents.pollout = true
  succeeds : ∀ i, d.flushes i = .eagain → ∃ j, i < j ∧ d.flushes j = .ok
  unfailing : ∀ i, d.flushes i = .error → ∃ j, j < i ∧ d.flushes j = .ok

/-- `wayland_ct_flush` returns `ret` after finitely many calls. -/
def Returns (d : Display) (ret : Bool) : Prop := ∃ n, (waylandCtFlush d n).phase = .returned ret

theorem not_returns_of_eagain (d : Display) (he : d.flushes 0 = .eagain) : ¬ Returns d true := by
  rintro ⟨n, hn⟩
  cases n with
  | zero => simp [start] at hn
  | succ n =>
    have hp := phase_after_eagain d he n
    simp [hn] at hp

/-- The flush is not retried: `true` is returned exactly when the first one does not block. -/
theorem wayland_ct_flush_iff (d : Display) (hd : Obliging d) :
    Returns d true ↔ d.flushes 0 ≠ .eagain := by
  constructor
  · intro hr he
    exact not_returns_of_eagain d he hr
  · intro he
    use 1
    cases hf : d.flushes 0 with
    | ok => simp [waylandCtFlush_succ, start, step, hf]
    | eagain => exact absurd hf he
    | error =>
      obtain ⟨j, hj, -⟩ := hd.unfailing 0 hf
      omega

/-- A display whose socket is full at the first flush and writable at once after it. -/
def fullOnce : Display where
  flushes i := if i = 0 then .eagain else .ok
  polls _ _ := .events ⟨false, true, false, by simp, by simp [flushEvents]⟩

theorem fullOnce_obliging : Obliging fullOnce where
  writable _ _ := ⟨_, rfl, rfl⟩
  succeeds i _ := ⟨i + 1, by omega, by simp [fullOnce]⟩
  unfailing i hi := by
    simp only [fullOnce] at hi
    split_ifs at hi

/-- A full socket that becomes writable: `wayland_ct_flush` spins in `poll` and never returns. -/
theorem fullOnce_spins : Obliging fullOnce ∧ ¬ Returns fullOnce true ∧
    ∀ n, (waylandCtFlush fullOnce (n + 1)).phase = .polling := by
  have he : fullOnce.flushes 0 = .eagain := by simp [fullOnce]
  refine ⟨fullOnce_obliging, not_returns_of_eagain fullOnce he, ?_⟩
  intro n
  exact polling_forever fullOnce he (fun _ _ => ⟨_, rfl, rfl⟩) n

def neverFull : Display where
  flushes _ := .ok
  polls _ _ := .timeout

theorem neverFull_returns : Returns neverFull true :=
  (wayland_ct_flush_iff neverFull
    ⟨(fun _ h => by cases h), (fun _ h => by cases h), (fun _ h => by cases h)⟩).2 (by decide)

end Flushing

end Swayclip
