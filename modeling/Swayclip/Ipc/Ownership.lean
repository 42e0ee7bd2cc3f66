import Mathlib.Data.Nat.Notation
import Mathlib.Logic.Function.Basic
import Swayclip.Library.Runs

/-! # Who owns the socket path

`ipc_init` and `ipc_uninit` of any number of daemons with one socket path, one system call after
the other. A daemon asks whether the lock file is locked; if it is not, the daemon unlinks the
socket and the lock file, and only then does it create and lock a lock file of its own.
-/

namespace Swayclip
open Library.Runs

/-- The system call that a daemon makes next. `lock` is the file behind `lock_fd`, and `leaving`
tells `ipc_uninit` from `ipc_init`. -/
inductive InitPhase where
  | off
  | openLock
  | testLock (file : ℕ)
  | unlinkPath (leaving : Bool)
  | unlinkLock (leaving : Bool)
  | createLock
  | setLock (file : ℕ)
  | socket (lock : ℕ)
  | bind (lock : ℕ)
  | listen (lock sock : ℕ)
  | register (lock sock : ℕ)
  | up (lock sock : ℕ)
  | unlinkOwn (lock : ℕ)
  | closeLock (lock : ℕ) (leaving : Bool)
deriving DecidableEq

namespace InitPhase

/-- The socket that is bound and will be served. -/
def bound : InitPhase → Option ℕ
  | .listen _ sock => some sock
  | .register _ sock => some sock
  | .up _ sock => some sock
  | _ => none

/-- `ipc_init` has returned true. -/
def isUp : InitPhase → Bool
  | .up _ _ => true
  | _ => false

def unlinksPath : InitPhase → Bool
  | .unlinkPath _ => true
  | _ => false

end InitPhase

/-- The daemons and the two names in the directory; files are numbered. -/
structure Host (ι : Type*) where
  phase : ι → InitPhase
  lockFile : Option ℕ
  socketFile : Option ℕ
  lockedBy : ℕ → Option ι
  nextFile : ℕ

/-- A daemon is started, makes its next call, leaves its event loop or is killed. `ok` is false
for a call that fails for a reason of its own. -/
inductive HostInput where
  | start
  | call (ok : Bool)
  | quit
  | crash

namespace Host
variable {ι : Type*} [DecidableEq ι]

/-- No daemon runs; either file may be left from an earlier one. -/
def init (lockFile socketFile : Bool) : Host ι where
  phase _ := .off
  lockFile := if lockFile then some 0 else none
  socketFile := if socketFile then some 1 else none
  lockedBy _ := none
  nextFile := 2

def goto (p : ι) (phase : InitPhase) (h : Host ι) : Host ι :=
  { h with phase := Function.update h.phase p phase }

/-- Another process has a lock on the file. -/
def lockedByOther (p : ι) (file : ℕ) (h : Host ι) : Bool := (h.lockedBy file).any (· ≠ p)

/-- `close` on a descriptor of the file. -/
def unlock (p : ι) (file : ℕ) (h : Host ι) : Host ι :=
  { h with
    lockedBy := Function.update h.lockedBy file
      (if h.lockedBy file = some p then none else h.lockedBy file) }

/-- The next system call of a daemon. -/
def call (p : ι) (ok : Bool) (h : Host ι) : Host ι :=
  match h.phase p with
  | .off => h
  | .openLock =>
    if !ok then h.goto p .off
    else
      match h.lockFile with
      | none => h.goto p (.unlinkPath false)
      | some file => h.goto p (.testLock file)
  | .testLock file =>
    if !ok || h.lockedByOther p file then h.goto p .off else h.goto p (.unlinkPath false)
  | .unlinkPath leaving =>
    { h with socketFile := if ok then none else h.socketFile }.goto p (.unlinkLock leaving)
  | .unlinkLock leaving =>
    { h with lockFile := if ok then none else h.lockFile }.goto p
      (if leaving then .off else .createLock)
  | .createLock =>
    if !ok then h.goto p .off
    else
      match h.lockFile with
      | none => { h with lockFile := some h.nextFile, nextFile := h.nextFile + 1 }.goto p
          (.setLock h.nextFile)
      | some file => h.goto p (.setLock file)
  | .setLock file =>
    if !ok || h.lockedByOther p file then h.goto p .off
    else { h with lockedBy := Function.update h.lockedBy file (some p) }.goto p (.socket file)
  | .socket lock => h.goto p (if ok then .bind lock else .unlinkOwn lock)
  | .bind lock =>
    -- a name that exists cannot be bound
    if !ok || h.socketFile.isSome then h.goto p (.unlinkOwn lock)
    else { h with socketFile := some h.nextFile, nextFile := h.nextFile + 1 }.goto p
      (.listen lock h.nextFile)
  | .listen lock sock => h.goto p (if ok then .register lock sock else .unlinkOwn lock)
  | .register lock sock => h.goto p (if ok then .up lock sock else .unlinkOwn lock)
  | .up _ _ => h
  | .unlinkOwn lock =>
    { h with lockFile := if ok then none else h.lockFile }.goto p (.closeLock lock false)
  | .closeLock lock leaving =>
    (h.unlock p lock).goto p (if leaving then .unlinkPath true else .off)

/-- `ipc_uninit` closes the socket first. When a daemon is killed, its locks are gone. -/
def step (h : Host ι) : ι × HostInput → Host ι
  | (p, .start) =>
    match h.phase p with
    | .off => h.goto p .openLock
    | _ => h
  | (p, .call ok) => h.call p ok
  | (p, .quit) =>
    match h.phase p with
    | .up lock _ => h.goto p (.closeLock lock true)
    | _ => h
  | (p, .crash) =>
    { h with
      lockedBy := fun file =>
        if h.lockedBy file = some p then none else h.lockedBy file }.goto p .off

/-- At most one daemon has returned true from `ipc_init` and still serves its socket. -/
def OneUp (h : Host ι) : Prop :=
  ∀ p q, (h.phase p).isUp = true → (h.phase q).isUp = true → p = q

/-- The daemon's socket is the one that the path leads to. -/
def Owns (q : ι) (h : Host ι) : Prop :=
  ∃ sock, (h.phase q).bound = some sock ∧ h.socketFile = some sock

/-- No daemon unlinks the socket path while it leads to the socket of a daemon. -/
def Spares (h : Host ι) : ι × HostInput → Prop
  | (p, .call true) => (h.phase p).unlinksPath = true → ∀ q, ¬ h.Owns q
  | _ => True

@[simp] theorem goto_phase_self (p : ι) (phase : InitPhase) (h : Host ι) :
    (h.goto p phase).phase p = phase := by
  simp [goto]

theorem goto_phase_of_ne {p q : ι} (hq : q ≠ p) (phase : InitPhase) (h : Host ι) :
    (h.goto p phase).phase q = h.phase q := by
  simp [goto, hq]

@[simp] theorem goto_socketFile (p : ι) (phase : InitPhase) (h : Host ι) :
    (h.goto p phase).socketFile = h.socketFile := rfl

/-! ## What a step can do -/

/-- What becomes of the path and of the socket of the daemon that makes the step. -/
inductive Change (i : ι × HostInput) (h h' : Host ι) : Prop
  | keeps (hfile : h'.socketFile = h.socketFile)
      (hbound : ∀ sock, (h'.phase i.1).bound = some sock → (h.phase i.1).bound = some sock)
  | unlinks (hcall : i.2 = .call true) (hphase : (h.phase i.1).unlinksPath = true)
      (hfile : h'.socketFile = none) (hbound : (h'.phase i.1).bound = none)
  | binds (sock : ℕ) (hbefore : h.socketFile = none) (hfile : h'.socketFile = some sock)
      (hbound : (h'.phase i.1).bound = some sock)

theorem step_others (h : Host ι) (i : ι × HostInput) {q : ι} (hq : q ≠ i.1) :
    (h.step i).phase q = h.phase q := by
  obtain ⟨p, input⟩ := i
  cases input with
  | start =>
    simp only [step]
    split
    · exact goto_phase_of_ne hq ..
    · rfl
  | call ok =>
    simp only [step, call]
    split <;> try split
    all_goals try split
    all_goals simp [goto, unlock, Function.update_of_ne hq]
  | quit =>
    simp only [step]
    split
    · exact goto_phase_of_ne hq ..
    · rfl
  | crash => exact goto_phase_of_ne hq ..

/-- Most calls leave the path alone and no socket bound. -/
theorem Change.goto {p : ι} {input : HostInput} {h h' : Host ι}
    (hfile : h'.socketFile = h.socketFile) {phase : InitPhase} (hphase : phase.bound = none) :
    Change (p, input) h (h'.goto p phase) := by
  refine .keeps hfile fun sock hbound => ?_
  rw [goto_phase_self, hphase] at hbound
  cases hbound

theorem call_change (h : Host ι) (p : ι) (ok : Bool) :
    Change (p, .call ok) h (h.call p ok) := by
  cases hphase : h.phase p with
  | off | up =>
    rw [call, hphase]
    exact .keeps rfl fun _ hbound => hbound
  | unlinkPath leaving =>
    rw [call, hphase]
    cases ok with
    | true => exact .unlinks rfl (by rw [hphase]; rfl) rfl (by simp [InitPhase.bound])
    | false => apply Change.goto <;> rfl
  | bind lock =>
    rw [call, hphase]
    dsimp only
    split
    · apply Change.goto <;> rfl
    · rename_i hbinds
      have hnone : h.socketFile = none := by
        simp only [Bool.or_eq_true, not_or, Bool.not_eq_true, Option.isSome_eq_false_iff,
          Option.isNone_iff_eq_none] at hbinds
        exact hbinds.2
      exact .binds h.nextFile hnone rfl (by simp [InitPhase.bound])
  | listen lock sock =>
    rw [call, hphase]
    cases ok with
    | true => exact .keeps rfl fun s hs => by simpa [hphase, InitPhase.bound] using hs
    | false => apply Change.goto <;> rfl
  | register lock sock =>
    rw [call, hphase]
    cases ok with
    | true => exact .keeps rfl fun s hs => by simpa [hphase, InitPhase.bound] using hs
    | false => apply Change.goto <;> rfl
  | unlinkLock leaving =>
    rw [call, hphase]
    cases leaving <;> (apply Change.goto <;> rfl)
  | socket lock =>
    rw [call, hphase]
    cases ok <;> (apply Change.goto <;> rfl)
  | closeLock lock leaving =>
    rw [call, hphase]
    cases leaving <;> (apply Change.goto <;> rfl)
  | unlinkOwn lock =>
    rw [call, hphase]
    apply Change.goto <;> rfl
  | _ =>
    rw [call, hphase]
    dsimp only
    repeat' split
    all_goals apply Change.goto <;> rfl

theorem step_change (h : Host ι) (i : ι × HostInput) : Change i h (h.step i) := by
  obtain ⟨p, input⟩ := i
  cases input with
  | start =>
    simp only [step]
    split
    · apply Change.goto <;> rfl
    · exact .keeps rfl fun _ hbound => hbound
  | call ok => exact call_change h p ok
  | quit =>
    simp only [step]
    split
    · apply Change.goto <;> rfl
    · exact .keeps rfl fun _ hbound => hbound
  | crash => apply Change.goto <;> rfl

/-! ## One owner at a time -/

/-- Every bound socket is the one that the path leads to, so there is only one. -/
structure Exclusive (h : Host ι) : Prop where
  leads : ∀ p sock, (h.phase p).bound = some sock → h.socketFile = some sock
  one : ∀ p q, (h.phase p).bound.isSome = true → (h.phase q).bound.isSome = true → p = q

omit [DecidableEq ι] in
theorem init_exclusive (lockFile socketFile : Bool) :
    (init lockFile socketFile : Host ι).Exclusive :=
  ⟨(fun _ _ hbound => by cases hbound), (fun _ _ hbound => by cases hbound)⟩

omit [DecidableEq ι] in
theorem Exclusive.oneUp {h : Host ι} (hx : h.Exclusive) : h.OneUp := by
  have hbound : ∀ phase : InitPhase, phase.isUp = true → phase.bound.isSome = true := by
    intro phase hup
    cases phase <;> first | rfl | cases hup
  exact fun p q hp hq => hx.one p q (hbound _ hp) (hbound _ hq)

theorem Exclusive.step {h : Host ι} (hx : h.Exclusive) {i : ι × HostInput} (hspares : h.Spares i) :
    (h.step i).Exclusive := by
  have hothers : ∀ q, q ≠ i.1 → ((h.step i).phase q).bound = (h.phase q).bound :=
    fun q hq => congrArg InitPhase.bound (step_others h i hq)
  cases step_change h i with
  | keeps hfile hbound =>
    have hbefore : ∀ q sock, ((h.step i).phase q).bound = some sock →
        (h.phase q).bound = some sock := by
      intro q sock hq
      by_cases hself : q = i.1
      · subst hself
        exact hbound sock hq
      · rwa [hothers q hself] at hq
    constructor
    · intro q sock hq
      rw [hfile]
      exact hx.leads q sock (hbefore q sock hq)
    · intro q r hq hr
      obtain ⟨sock, hsock⟩ := Option.isSome_iff_exists.mp hq
      obtain ⟨other, hother⟩ := Option.isSome_iff_exists.mp hr
      apply hx.one q r
      · rw [hbefore q sock hsock]
        rfl
      · rw [hbefore r other hother]
        rfl
  | unlinks hcall hphase hfile hnone =>
    -- nobody's socket is there, so none was bound
    obtain ⟨p, input⟩ := i
    obtain rfl : input = .call true := hcall
    have hunbound : ∀ q, ((h.step (p, .call true)).phase q).bound = none := by
      intro q
      by_cases hself : q = p
      · rw [hself]
        exact hnone
      · rw [hothers q hself, Option.eq_none_iff_forall_ne_some]
        exact fun sock hsock => hspares hphase q ⟨sock, hsock, hx.leads q sock hsock⟩
    constructor
    · intro q sock hq
      rw [hunbound] at hq
      cases hq
    · intro q r hq
      rw [hunbound] at hq
      cases hq
  | binds sock hfree hfile hbound =>
    -- the path was free, so no socket was bound
    have hunbound : ∀ q, q ≠ i.1 → ((h.step i).phase q).bound = none := by
      intro q hq
      rw [hothers q hq, Option.eq_none_iff_forall_ne_some]
      intro other hother
      have hleads := hx.leads q other hother
      rw [hfree] at hleads
      cases hleads
    constructor
    · intro q other hq
      by_cases hself : q = i.1
      · subst hself
        rw [hfile, ← hbound, hq]
      · rw [hunbound q hself] at hq
        cases hq
    · intro q r hq hr
      have hself : ∀ x, ((h.step i).phase x).bound.isSome = true → x = i.1 := by
        intro x hsome
        by_contra hne
        rw [hunbound x hne] at hsome
        cases hsome
      rw [hself q hq, hself r hr]

/-! ## What follows once a socket has been unlinked -/

/-- Locks are on files that exist. -/
structure Numbered (h : Host ι) : Prop where
  lockFile : ∀ file ∈ h.lockFile, file < h.nextFile
  opened : ∀ p file, h.phase p = .setLock file → file < h.nextFile
  locked : ∀ file, h.lockedBy file ≠ none → file < h.nextFile

omit [DecidableEq ι] in
theorem init_numbered (lockFile socketFile : Bool) :
    (init lockFile socketFile : Host ι).Numbered := by
  refine ⟨fun file hfile => ?_, (fun _ _ hphase => by cases hphase), fun _ hlocked => ?_⟩
  · cases lockFile with
    | true =>
      obtain rfl : 0 = file := by simpa [init] using hfile
      exact Nat.zero_lt_two
    | false => cases hfile
  · exact absurd rfl hlocked

theorem Numbered.goto {h : Host ι} (hn : h.Numbered) (p : ι) {phase : InitPhase}
    (hphase : ∀ file, phase = .setLock file → file < h.nextFile) : (h.goto p phase).Numbered := by
  refine ⟨hn.lockFile, fun q file hq => ?_, hn.locked⟩
  by_cases hself : q = p
  · subst hself
    rw [goto_phase_self] at hq
    exact hphase file hq
  · rw [goto_phase_of_ne hself] at hq
    exact hn.opened q file hq

theorem Numbered.plain {h : Host ι} (hn : h.Numbered) {p : ι} {phase : InitPhase}
    (hphase : ∀ file, phase ≠ .setLock file) : (h.goto p phase).Numbered :=
  hn.goto p fun file hfile => absurd hfile (hphase file)

omit [DecidableEq ι] in
/-- Names go away, and new files get new numbers. -/
theorem Numbered.mono {h h' : Host ι} (hn : h.Numbered) (hnext : h.nextFile ≤ h'.nextFile)
    (hphase : h'.phase = h.phase) (hlock : ∀ file ∈ h'.lockFile, file < h'.nextFile)
    (hlocked : ∀ file, h'.lockedBy file ≠ none → file < h'.nextFile) : h'.Numbered := by
  refine ⟨hlock, fun p file hp => ?_, hlocked⟩
  rw [hphase] at hp
  exact Nat.lt_of_lt_of_le (hn.opened p file hp) hnext

omit [DecidableEq ι] in
theorem Numbered.unlinkLock {h : Host ι} (hn : h.Numbered) (ok : Bool) :
    { h with lockFile := if ok then none else h.lockFile }.Numbered := by
  refine hn.mono (Nat.le_refl _) rfl ?_ hn.locked
  · cases ok with
    | true => exact fun _ hfile => by cases hfile
    | false => exact hn.lockFile

theorem Numbered.unlock {h : Host ι} (hn : h.Numbered) (p : ι) (lock : ℕ) :
    (h.unlock p lock).Numbered := by
  refine hn.mono (Nat.le_refl _) rfl hn.lockFile fun file hlocked => ?_
  by_cases hsame : file = lock
  · subst hsame
    apply hn.locked
    intro hnone
    simp [Host.unlock, hnone] at hlocked
  · apply hn.locked
    simpa [Host.unlock, hsame] using hlocked

theorem Numbered.call {h : Host ι} (hn : h.Numbered) (p : ι) (ok : Bool) :
    (h.call p ok).Numbered := by
  cases hphase : h.phase p with
  | off | up =>
    rw [Host.call, hphase]
    exact hn
  | unlinkPath leaving =>
    rw [Host.call, hphase]
    apply Numbered.plain
    · exact hn.mono (Nat.le_refl _) rfl hn.lockFile hn.locked
    · simp
  | unlinkLock leaving =>
    rw [Host.call, hphase]
    exact (hn.unlinkLock ok).plain (by cases leaving <;> simp)
  | unlinkOwn lock =>
    rw [Host.call, hphase]
    exact (hn.unlinkLock ok).plain (by simp)
  | closeLock lock leaving =>
    rw [Host.call, hphase]
    exact (hn.unlock p lock).plain (by cases leaving <;> simp)
  | createLock =>
    rw [Host.call, hphase]
    dsimp only
    split
    · exact hn.plain (by simp)
    · split
      · have hnew : { h with
            lockFile := some h.nextFile, nextFile := h.nextFile + 1 }.Numbered := by
          refine hn.mono (Nat.le_succ _) rfl (fun file hfile => ?_) fun file hlocked => ?_
          · obtain rfl := Option.some.inj hfile
            exact Nat.lt_succ_self _
          · exact Nat.lt_succ_of_lt (hn.locked file hlocked)
        exact hnew.goto p fun file hfile => by cases hfile; exact Nat.lt_succ_self _
      · rename_i file hfile
        exact hn.goto p fun other hother => by
          cases hother
          exact hn.lockFile file hfile
  | setLock file =>
    rw [Host.call, hphase]
    dsimp only
    split
    · exact hn.plain (by simp)
    · apply Numbered.plain
      · refine hn.mono (Nat.le_refl _) rfl hn.lockFile fun other hlocked => ?_
        by_cases hsame : other = file
        · subst hsame
          exact hn.opened p other hphase
        · apply hn.locked
          simpa [hsame] using hlocked
      · simp
  | bind lock =>
    rw [Host.call, hphase]
    dsimp only
    split
    · exact hn.plain (by simp)
    · apply Numbered.plain
      · refine hn.mono (Nat.le_succ _) rfl ?_ ?_
        · exact fun file hfile => Nat.lt_succ_of_lt (hn.lockFile file hfile)
        · exact fun file hlocked => Nat.lt_succ_of_lt (hn.locked file hlocked)
      · simp
  | socket lock | listen lock sock | register lock sock =>
    rw [Host.call, hphase]
    exact hn.plain (by cases ok <;> simp)
  | testLock file =>
    rw [Host.call, hphase]
    dsimp only
    split <;> exact hn.plain (by simp)
  | openLock =>
    rw [Host.call, hphase]
    dsimp only
    repeat' split
    all_goals exact hn.plain (by simp)

theorem Numbered.step {h : Host ι} (hn : h.Numbered) (i : ι × HostInput) : (h.step i).Numbered := by
  obtain ⟨p, input⟩ := i
  cases input with
  | start =>
    simp only [Host.step]
    split
    · exact hn.plain (by simp)
    · exact hn
  | call ok => exact hn.call p ok
  | quit =>
    simp only [Host.step]
    split
    · exact hn.plain (by simp)
    · exact hn
  | crash =>
    apply Numbered.plain
    · refine hn.mono (Nat.le_refl _) rfl hn.lockFile fun file hlocked => ?_
      apply hn.locked
      intro hnone
      simp [hnone] at hlocked
    · simp

/-! ### The run to two owners -/

theorem run_others {p q : ι} (hq : q ≠ p) (h : Host ι) (inputs : List HostInput) :
    (run step h (inputs.map fun input => (p, input))).phase q = h.phase q := by
  induction inputs generalizing h with
  | nil => rfl
  | cons input inputs ih => rw [List.map_cons, run_cons, ih, step_others h (p, input) hq]

/-- The calls that remain once the path and the lock file have been unlinked. -/
def comeUp : List HostInput := List.replicate 7 (.call true)

/-- What a daemon that leaves does before it comes back to that point. -/
def comeBack : List HostInput := [.call true, .start, .call true, .call true]

/-- A daemon that has found the path free and the lock file gone comes up. -/
theorem comes_up {h : Host ι} {p : ι} (hphase : h.phase p = .unlinkLock false)
    (hfree : h.socketFile = none) (hfresh : h.lockedBy h.nextFile = none) :
    ((run step h (comeUp.map fun input => (p, input))).phase p).isUp = true := by
  simp [comeUp, List.replicate, step, call, hphase, goto, hfree, hfresh, lockedByOther,
    InitPhase.isUp]

theorem comes_back {h : Host ι} {p : ι} (hphase : h.phase p = .unlinkLock true)
    (hfree : h.socketFile = none) :
    let h' := run step h (comeBack.map fun input => (p, input))
    h'.phase p = .unlinkLock false ∧ h'.socketFile = none ∧ h'.lockedBy = h.lockedBy ∧
      h'.nextFile = h.nextFile := by
  simp [comeBack, step, call, hphase, goto, hfree]

/-- A daemon whose socket is bound comes up. -/
theorem bound_comes_up {h : Host ι} {q : ι} (hbound : (h.phase q).bound.isSome = true) :
    ((run step h ([.call true, .call true].map fun input => (q, input))).phase q).isUp = true := by
  cases hphase : h.phase q with
  | listen lock sock => simp [step, call, hphase, goto, InitPhase.isUp]
  | register lock sock => simp [step, call, hphase, goto, InitPhase.isUp]
  | up lock sock => simp [step, call, hphase, InitPhase.isUp]
  | _ =>
    rw [hphase] at hbound
    cases hbound

/-- Wherever a daemon unlinks the socket of another one, both can come up. -/
theorem two_up {h : Host ι} (hn : h.Numbered) {i : ι × HostInput} (hspares : ¬ h.Spares i) :
    ∃ more, ¬ (run step h (i :: more)).OneUp := by
  obtain ⟨p, input⟩ := i
  obtain ⟨rfl, hunlinks, q, hq⟩ : input = .call true ∧ (h.phase p).unlinksPath = true ∧
      ∃ q, h.Owns q := by
    cases input with
    | call ok =>
      cases ok with
      | true => simpa [Spares] using hspares
      | false => exact absurd trivial hspares
    | _ => exact absurd trivial hspares
  obtain ⟨leaving, hphase⟩ : ∃ leaving, h.phase p = .unlinkPath leaving := by
    cases hphase : h.phase p with
    | unlinkPath leaving => exact ⟨leaving, rfl⟩
    | _ =>
      rw [hphase] at hunlinks
      cases hunlinks
  obtain ⟨sock, hbound, -⟩ := hq
  have hne : q ≠ p := by
    rintro rfl
    rw [hphase] at hbound
    cases hbound
  have hfresh : h.lockedBy h.nextFile = none := by
    by_contra hlocked
    exact absurd (hn.locked _ hlocked) (Nat.lt_irrefl _)
  -- the path is free, and after a start of `p` the lock file is gone as well
  obtain ⟨before, hready, hfree, hlocks, hnext⟩ : ∃ before : List HostInput,
      let h' := run step h ((p, .call true) :: before.map fun input => (p, input))
      h'.phase p = .unlinkLock false ∧ h'.socketFile = none ∧ h'.lockedBy = h.lockedBy ∧
        h'.nextFile = h.nextFile := by
    have hstep : h.step (p, .call true) =
        { h with socketFile := none }.goto p (.unlinkLock leaving) := by
      simp [step, call, hphase]
    cases leaving with
    | false =>
      refine ⟨[], ?_⟩
      simp [hstep, goto]
    | true =>
      refine ⟨comeBack, ?_⟩
      rw [run_cons, hstep]
      exact comes_back (by simp) rfl
  let h' := run step h ((p, .call true) :: before.map fun input => (p, input))
  let h'' := run step h' (comeUp.map fun input => (p, input))
  have hp : (h''.phase p).isUp = true := comes_up hready hfree (by rw [hlocks, hnext, hfresh])
  have hkept : h''.phase q = h.phase q := by
    rw [run_others hne]
    exact run_others hne h (.call true :: before)
  have hq : ((run step h'' ([.call true, .call true].map fun input => (q, input))).phase q).isUp =
      true := bound_comes_up (by rw [hkept, hbound]; rfl)
  refine ⟨before.map (fun input => (p, input)) ++ comeUp.map (fun input => (p, input)) ++
    [.call true, .call true].map (fun input => (q, input)), fun hone => ?_⟩
  rw [← List.cons_append, ← List.cons_append, run_append, run_append] at hone
  have hsame := hone p q (by rw [run_others hne.symm]; exact hp) hq
  exact hne hsame.symm

end Host

/-- As long as no daemon unlinks the socket of another one, at most one of them is up; and as soon
as one does, two of them can come up. -/
theorem one_daemon_up {ι : Type*} [DecidableEq ι] (lockFile socketFile : Bool)
    (inputs : List (ι × HostInput)) :
    let h := run Host.step (Host.init lockFile socketFile) inputs
    (Meets Host.step Host.Spares (Host.init lockFile socketFile) inputs → h.OneUp) ∧
      ∀ i, ¬ h.Spares i → ∃ more, ¬ (run Host.step h (i :: more)).OneUp := by
  constructor
  · intro hspares
    have hexclusive : (run Host.step (Host.init lockFile socketFile) inputs).Exclusive :=
      run_invariant (fun _ _ hx hi => hx.step hi) (Host.init_exclusive ..) hspares
    exact hexclusive.oneUp
  · intro i hi
    have hnumbered : (run Host.step (Host.init lockFile socketFile) inputs).Numbered :=
      run_invariant (C := fun _ _ => True) (fun _ i hn _ => hn.step i) (Host.init_numbered ..)
        (Meets.of_mem fun _ _ _ => trivial)
    exact Host.two_up hnumbered hi

/-- One daemon asks whether the lock file is locked, and goes on when another one is up. -/
def overtakenStart : List (Bool × HostInput) :=
  [(false, .start), (false, .call true)] ++
    (.start :: List.replicate 9 (.call true)).map (fun input => (true, input)) ++
    List.replicate 8 (false, .call true)

/-- Both are up. -/
theorem overtakenStart_two_up :
    ¬ (run Host.step (Host.init false false) overtakenStart).OneUp := by
  intro hone
  exact absurd (hone true false (by decide) (by decide)) (by decide)

end Swayclip
