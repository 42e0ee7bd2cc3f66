import Swayclip.Event.Sound

/-! # Whether live sources stay in the interest set

`eventloop_del` leaves the entry of its descriptor to the end of the iteration, where it is
taken by descriptor number. By then the number may be that of another source.
-/

namespace Swayclip
open Library.Runs

namespace EventLoop

/-- Every registered source whose descriptor is open has its entry. -/
def Registered (s : EventLoop) : Prop :=
  ∀ source ∈ s.sources, s.isOpen (s.memory source).fd = true →
    s.epoll (s.memory source).fd = some (source, (s.memory source).events)

/-- No descriptor is opened under the number of a source that is still registered, and no
iteration ends with a live descriptor under the number of a source that is to be deleted. -/
def Unshared (s : EventLoop) : LoopInput → Prop
  | .call (.open fd) => s.isOpen fd = false → ∀ source ∈ s.sources, (s.memory source).fd ≠ fd
  | .sweep => s.phase = .batch [] none →
      ∀ source ∈ s.sources, s.isOpen (s.memory source).fd = true →
        ∀ deleted ∈ s.deletedSources, (s.memory deleted).fd ≠ (s.memory source).fd
  | _ => True

theorem Registered.unique {s : EventLoop} (h : s.Registered) {source other : ℕ}
    (hsource : source ∈ s.sources) (hother : other ∈ s.sources)
    (hfd : (s.memory source).fd = (s.memory other).fd)
    (hopen : s.isOpen (s.memory source).fd = true) : source = other := by
  have hentry := h source hsource hopen
  rw [hfd] at hopen hentry
  rw [h other hother hopen] at hentry
  exact (Prod.mk.inj (Option.some.inj hentry)).1.symm

theorem Registered.defer {s : EventLoop} (h : s.Registered) (source : ℕ) :
    (s.defer source).Registered := by
  intro other hother hopen
  exact h other (List.mem_of_mem_filter hother) hopen

theorem Registered.destroy {s : EventLoop} (h : s.Registered) {target fd : ℕ}
    (htarget : s.delTarget fd = some target) : (s.eventsourceDel target).Registered := by
  intro source hsource hopen
  obtain ⟨hmem, hne⟩ := List.mem_filter.mp hsource
  have hne : source ≠ target := of_decide_eq_true hne
  have hfd := (delTarget_some htarget).2
  change (s.eventsourceDel target).epoll (s.memory source).fd = some (source, _)
  rw [destroy_epoll, if_neg]
  · exact h source hmem hopen
  · intro hshared
    obtain hin | hall := delTarget_first htarget
    · exact hne (h.unique hmem hin hshared hopen)
    · exact hall source hmem (hshared.trans hfd)

theorem Registered.del {s : EventLoop} (h : s.Registered) (fd : ℕ) :
    (s.eventloopDel fd).2.Registered := by
  obtain ⟨source, htarget, ⟨-, heq⟩ | ⟨-, -, heq⟩⟩ | heq := del_cases fd s
  · rw [heq]
    exact h.destroy htarget
  · rw [heq]
    exact h.defer source
  · rwa [heq]

theorem Registered.add {s : EventLoop} (hs : s.Sound) (h : s.Registered) (fd : ℕ)
    (priority : EventPriority) (events : ℕ) : (s.eventloopAdd fd priority events).2.Registered := by
  obtain ⟨-, hnone, heq⟩ | heq := add_cases fd priority events s
  · rw [heq]
    intro source hsource hopen
    obtain rfl | hmem := List.mem_cons.mp hsource
    · simp
    · have hne : source ≠ s.used := (hs.used source (Or.inl hmem)).ne
      simp only [Function.update_of_ne hne] at hopen ⊢
      have hentry := h source hmem hopen
      have hfd : (s.memory source).fd ≠ fd := by
        intro hfd
        rw [hfd, hnone] at hentry
        cases hentry
      rw [Function.update_of_ne hfd, hentry]
  · rwa [heq]

theorem Registered.mod {s : EventLoop} (h : s.Registered) (fd events : ℕ) :
    (s.eventloopMod fd events).2.Registered := by
  obtain ⟨source, hmem, hfd, -, heq⟩ | heq := mod_cases fd events s
  · rw [heq]
    intro other hother hopen
    by_cases hne : other = source
    · subst hne
      simp [hfd]
    · simp only [Function.update_of_ne hne] at hopen ⊢
      have hshared : (s.memory other).fd ≠ fd := by
        intro hshared
        exact hne (h.unique hother hmem (hshared.trans hfd.symm) hopen)
      rw [Function.update_of_ne hshared, h other hother hopen]
  · rwa [heq]

theorem Registered.closeFd {s : EventLoop} (h : s.Registered) (fd : ℕ) :
    (s.closeFd fd).Registered := by
  intro source hsource hopen
  simp only [EventLoop.closeFd, epollDel] at hopen ⊢
  by_cases hfd : (s.memory source).fd = fd
  · simp [hfd] at hopen
  · rw [Function.update_of_ne hfd] at hopen ⊢
    exact h source hsource hopen

theorem registered_open_iff {s : EventLoop} (hs : s.Sound) (h : s.Registered) (fd : ℕ) :
    (s.openFd fd).Registered ↔ s.Unshared (.call (.open fd)) := by
  simp only [Unshared]
  cases hopen : s.isOpen fd with
  | true => simpa only [openFd, hopen, if_true, Bool.true_eq_false, false_implies, iff_true] using h
  | false =>
    simp only [openFd, hopen, Bool.false_eq_true, if_false, true_implies]
    constructor
    · intro hafter source hsource hfd
      have hentry := hafter source hsource (by simp [hfd])
      have hnone := hs.closed fd hopen
      simp [hfd, hnone] at hentry
    · intro hfree source hsource hafter
      apply h source hsource
      simpa only [Function.update_of_ne (hfree source hsource)] using hafter

/-- The end of an iteration takes entries by descriptor. -/
theorem registered_sweep_iff {s : EventLoop} (hs : s.Sound) :
    s.sweep.Registered ↔ s.Registered ∧ s.Unshared .sweep := by
  simp only [Unshared]
  by_cases hphase : s.phase = .batch [] none
  · rw [sweep_eq hs.nodup hphase]
    simp only [Registered, hphase, true_implies, ← forall_and]
    apply forall₃_congr
    intro source hsource hopen
    cases hany : s.deletedSources.any fun other => (s.memory other).fd == (s.memory source).fd with
    | true =>
      obtain ⟨deleted, hdeleted, hfd⟩ := List.any_eq_true.mp hany
      refine iff_of_false (fun hgone => ?_) (fun hall => ?_)
      · cases hgone
      · exact hall.2 deleted hdeleted (beq_iff_eq.mp hfd)
    | false =>
      refine (and_iff_left ?_).symm
      intro deleted hdeleted hfd
      exact List.any_eq_false.mp hany deleted hdeleted (beq_iff_eq.mpr hfd)
  · rw [sweep_of_ne hphase]
    exact (and_iff_left fun hbatch => absurd hbatch hphase).symm

/-- A step leaves every live source in the interest set exactly when no number is shared. -/
theorem registered_step_iff {s : EventLoop} (hs : s.Sound) (h : s.Registered) (i : LoopInput) :
    (s.step i).Registered ↔ s.Unshared i := by
  cases i with
  | call c =>
    cases c with
    | add fd priority events => exact iff_of_true (h.add hs fd priority events) trivial
    | del fd => exact iff_of_true (h.del fd) trivial
    | mod fd events => exact iff_of_true (h.mod fd events) trivial
    | stop => exact iff_of_true h trivial
    | «open» fd => exact registered_open_iff hs h fd
    | close fd => exact iff_of_true (h.closeFd fd) trivial
  | run =>
    refine iff_of_true ?_ trivial
    simp only [step]
    split <;> exact h
  | wait ready =>
    refine iff_of_true ?_ trivial
    simp only [step]
    split <;> exact h
  | waitError =>
    refine iff_of_true ?_ trivial
    simp only [step]
    split <;> exact h
  | dispatch =>
    refine iff_of_true ?_ trivial
    simp only [step, dispatch]
    split <;> exact h
  | ret remove =>
    refine iff_of_true ?_ trivial
    simp only [step, ret]
    split
    · cases remove with
      | false => exact h
      | true => exact Registered.defer h _
    · exact h
  | sweep => exact (registered_sweep_iff hs).trans (and_iff_right h)

/-- In every run, each live source keeps its entry exactly as long as no descriptor number is
shared with a source that is still known to the loop. -/
theorem registered_throughout_iff (inputs : List LoopInput) :
    (∀ done, done <+: inputs → (run step init done).Registered) ↔
      Meets step Unshared init inputs := by
  apply throughout_iff (I := Sound)
  · exact fun s i h => h.step i
  · exact fun s i hs h => registered_step_iff hs h i
  · exact sound_init
  · intro source hsource
    cases hsource

/-- The ends of the iterations alone: each live source has its entry there exactly if it has it
just before and no source that is then deleted shares its number. A number that was shared for a
while does no harm. -/
theorem registered_ends_iff (inputs : List LoopInput) :
    (∀ done, done ++ [.sweep] <+: inputs → (run step init done).phase = .batch [] none →
        (run step init (done ++ [.sweep])).Registered) ↔
      ∀ done, done ++ [.sweep] <+: inputs → (run step init done).phase = .batch [] none →
        (run step init done).Registered ∧ (run step init done).Unshared .sweep := by
  refine forall₃_congr fun done _ _ => ?_
  rw [run_append]
  exact registered_sweep_iff (List.foldlRecOn done step sound_init fun s hs i _ => hs.step i)

/-- A client goes, and a new one is accepted on its descriptor by the next callback. -/
def clientReplaced : List LoopInput :=
  twoSources .normal ++
    [.wait bothReady, .dispatch, .call (.del 7), .call (.close 7), .ret true,
      .dispatch, .call (.open 7), .call (.add 7 .normal 1), .ret false]

/-- When the iteration ends, the new client is not in the interest set. -/
theorem clientReplaced_unregistered : ¬(run step init (clientReplaced ++ [.sweep])).Registered := by
  intro h
  have hentry := h 2 (by decide) (by decide)
  exact absurd hentry (by decide)

end EventLoop

end Swayclip
