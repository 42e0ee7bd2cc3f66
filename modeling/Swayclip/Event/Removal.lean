import Swayclip.Event.Sound
import Swayclip.Library.Ledger

/-! # What happens to a source after its removal

Two ledgers over the trace of a run: a source whose removal was answered is not dispatched
again, and a source that was destroyed is not used again. Neither holds of every run, since a
batch is copied before its first callback runs and `eventloop_del` destroys at once when the
loop is to stop.
-/

namespace Swayclip
open Library.Runs Library.Ledger

namespace Touch

/-- The source whose removal is answered. -/
def removal : Touch → Option ℕ
  | removed source => some source
  | _ => none

/-- The source whose callback is entered. -/
def callback : Touch → Option ℕ
  | dispatched source => some source
  | _ => none

/-- The source that `eventsource_del` frees. -/
def destruction : Touch → Option ℕ
  | destroyed source => some source
  | _ => none

/-- The source whose memory is read or written, or freed. -/
def access : Touch → Option ℕ
  | dispatched source => some source
  | unlinked source => some source
  | queued source => some source
  | destroyed source => some source
  | removed _ => none

end Touch

namespace EventLoop

/-- The source is in the batch and still to be dispatched. -/
def Waits (s : EventLoop) (source : ℕ) : Prop := source ∈ s.waiting.map Prod.fst

instance (s : EventLoop) (source : ℕ) : Decidable (s.Waits source) :=
  inferInstanceAs (Decidable (source ∈ s.waiting.map Prod.fst))

instance (s : EventLoop) (source : ℕ) : Decidable (s.Linked source) :=
  inferInstanceAs (Decidable (source ∈ s.sources ∨ source ∈ s.deletedSources))

/-- No source is removed while it waits in the batch, nor reported while it is to be
deleted. -/
def Undue (s : EventLoop) : LoopInput → Prop
  | .call (.del fd) => ∀ source ∈ s.delTarget fd, ¬s.Waits source
  | .wait ready => s.phase = .prepare → ∀ e ∈ s.reported ready, e.1 ∉ s.deletedSources
  | _ => True

/-- When the loop is to stop, no source that waits in the batch is removed, and no callback
asks for the removal of a source that is already gone. -/
def Unspent (s : EventLoop) : LoopInput → Prop
  | .call (.del fd) => s.stop = true → ∀ source ∈ s.delTarget fd, ¬s.Waits source
  | .ret true => ∀ source ∈ s.current, s.Linked source
  | _ => True

instance Undue.decidable (s : EventLoop) : ∀ i, Decidable (s.Undue i)
  | .call (.del fd) => inferInstanceAs (Decidable (∀ source ∈ s.delTarget fd, ¬s.Waits source))
  | .wait ready =>
    inferInstanceAs
      (Decidable (s.phase = .prepare → ∀ e ∈ s.reported ready, e.1 ∉ s.deletedSources))
  | .call (.add ..) | .call (.mod ..) | .call .stop | .call (.open _) | .call (.close _) | .run
  | .waitError | .dispatch | .ret _ | .sweep => isTrue trivial

instance Unspent.decidable (s : EventLoop) : ∀ i, Decidable (s.Unspent i)
  | .call (.del fd) =>
    inferInstanceAs (Decidable (s.stop = true → ∀ source ∈ s.delTarget fd, ¬s.Waits source))
  | .ret true => inferInstanceAs (Decidable (∀ source ∈ s.current, s.Linked source))
  | .call (.add ..) | .call (.mod ..) | .call .stop | .call (.open _) | .call (.close _) | .run
  | .wait _ | .waitError | .dispatch | .ret false | .sweep => isTrue trivial

/-- The trace so far is in order, and what ended in it is not among the sources that `alive`
names nor an address to be handed out. -/
def Kept (ends uses : Touch → Option ℕ) (alive : EventLoop → ℕ → Prop) (s : EventLoop) : Prop :=
  Closed ends uses (alive s) (s.used ≤ ·) s.trace

/-- Registered, or in the batch. -/
def Callable (s : EventLoop) (source : ℕ) : Prop := source ∈ s.sources ∨ s.Waits source

/-- On a list of the loop, or in the batch. -/
def Reachable (s : EventLoop) (source : ℕ) : Prop := s.Linked source ∨ s.Waits source

/-- What was removed is not called. -/
abbrev Retired (s : EventLoop) : Prop := s.Kept Touch.removal Touch.callback Callable

/-- What was destroyed is not touched. -/
abbrev Buried (s : EventLoop) : Prop := s.Kept Touch.destruction Touch.access Reachable

/-- Nothing is done to a source, and only a new one may appear. -/
structure Quiet (s s' : EventLoop) : Prop where
  trace : s'.trace = s.trace
  used : s.used ≤ s'.used
  sources : ∀ source ∈ s'.sources, source ∈ s.sources ∨ s.used ≤ source
  deletedSources : s'.deletedSources = s.deletedSources
  waiting : ∀ source, s'.Waits source → s.Waits source

theorem Quiet.refl (s : EventLoop) : Quiet s s :=
  ⟨rfl, Nat.le_refl _, fun _ => Or.inl, rfl, fun _ => id⟩

theorem quiet_add (fd : ℕ) (priority : EventPriority) (events : ℕ) (s : EventLoop) :
    Quiet s (s.eventloopAdd fd priority events).2 := by
  obtain ⟨-, -, heq⟩ | heq := add_cases fd priority events s
  · rw [heq]
    refine ⟨rfl, Nat.le_succ _, ?_, rfl, fun _ => id⟩
    intro source hsource
    obtain rfl | hsource := List.mem_cons.mp hsource
    · exact Or.inr (Nat.le_refl _)
    · exact Or.inl hsource
  · rw [heq]
    exact Quiet.refl s

theorem quiet_mod (fd events : ℕ) (s : EventLoop) : Quiet s (s.eventloopMod fd events).2 := by
  obtain ⟨_, -, -, -, heq⟩ | heq := mod_cases fd events s
  · rw [heq]
    exact ⟨rfl, Nat.le_refl _, fun _ => Or.inl, rfl, fun _ => id⟩
  · rw [heq]
    exact Quiet.refl s

theorem quiet_open (fd : ℕ) (s : EventLoop) : Quiet s (s.openFd fd) := by
  unfold openFd
  split
  · exact Quiet.refl s
  · exact ⟨rfl, Nat.le_refl _, fun _ => Or.inl, rfl, fun _ => id⟩

/-- Between batches nothing waits. -/
theorem quiet_between {s : EventLoop} {phase : Phase} (hphase : phase = .idle ∨ phase = .prepare)
    (stop : Bool) : Quiet s { s with stop := stop, phase := phase } := by
  refine ⟨rfl, Nat.le_refl _, fun _ => Or.inl, rfl, ?_⟩
  intro source hsource
  obtain rfl | rfl := hphase <;> cases hsource

theorem Quiet.callable {s s' : EventLoop} (h : Quiet s s') (source : ℕ) (hs' : s'.Callable source) :
    s.Callable source ∨ s.used ≤ source := by
  obtain hin | hwaits := hs'
  · exact (h.sources source hin).imp_left Or.inl
  · exact Or.inl (Or.inr (h.waiting source hwaits))

theorem Quiet.reachable {s s' : EventLoop} (h : Quiet s s') (source : ℕ)
    (hs' : s'.Reachable source) : s.Reachable source ∨ s.used ≤ source := by
  obtain (hin | hdeleted) | hwaits := hs'
  · exact (h.sources source hin).imp_left fun hold => Or.inl (Or.inl hold)
  · rw [h.deletedSources] at hdeleted
    exact Or.inl (Or.inl (Or.inr hdeleted))
  · exact Or.inl (Or.inr (h.waiting source hwaits))

theorem Kept.quiet {ends uses : Touch → Option ℕ} {alive : EventLoop → ℕ → Prop} {s s' : EventLoop}
    (h : s.Kept ends uses alive) (hq : Quiet s s')
    (halive : ∀ source, alive s' source → alive s source ∨ s.used ≤ source) :
    s'.Kept ends uses alive := by
  unfold Kept
  rw [hq.trace]
  exact Closed.mono h halive fun source hsource => Nat.le_trans hq.used hsource

/-- Most steps do nothing to a source. -/
theorem quiet_step (s : EventLoop) (i : LoopInput) :
    Quiet s (s.step i) ∨ (∃ fd, i = .call (.del fd)) ∨ (∃ ready, i = .wait ready) ∨
      i = .dispatch ∨ (∃ remove, i = .ret remove) ∨ i = .sweep := by
  cases i with
  | call c =>
    cases c with
    | add fd priority events => exact Or.inl (quiet_add fd priority events s)
    | del fd => exact Or.inr (Or.inl ⟨fd, rfl⟩)
    | mod fd events => exact Or.inl (quiet_mod fd events s)
    | stop => exact Or.inl ⟨rfl, Nat.le_refl _, fun _ => Or.inl, rfl, fun _ => id⟩
    | «open» fd => exact Or.inl (quiet_open fd s)
    | close fd => exact Or.inl ⟨rfl, Nat.le_refl _, fun _ => Or.inl, rfl, fun _ => id⟩
  | run =>
    left
    simp only [step]
    split
    · exact quiet_between (Or.inr rfl) false
    · exact Quiet.refl s
  | wait ready => exact Or.inr (Or.inr (Or.inl ⟨ready, rfl⟩))
  | waitError =>
    left
    simp only [step]
    split
    · exact quiet_between (Or.inl rfl) s.stop
    · exact Quiet.refl s
  | dispatch => simp
  | ret remove => simp
  | sweep => simp

/-- What waits after `epoll_wait` has an entry and is on a list of the loop. -/
theorem Sound.linked_of_reported {s : EventLoop} (hs : s.Sound) {ready : Ready} {source : ℕ}
    (h : source ∈ (s.buckets (s.reported ready)).map Prod.fst) :
    s.Linked source ∧ ∃ e ∈ s.reported ready, e.1 = source := by
  obtain ⟨e, he, rfl⟩ := List.mem_map.mp h
  have he := (buckets_perm _ s).mem_iff.mp he
  obtain ⟨fd, events, hentry⟩ := mem_reported he
  exact ⟨(hs.entry fd e.1 events hentry).1, e, he, rfl⟩

theorem dispatch_cases (s : EventLoop) :
    (∃ e waiting, s.phase = .batch (e :: waiting) none ∧
      s.dispatch = { s with phase := .batch waiting (some e.1) }.note [.dispatched e.1]) ∨
        s.dispatch = s := by
  unfold EventLoop.dispatch
  split
  · rename_i e waiting hphase
    exact Or.inl ⟨e, waiting, hphase, rfl⟩
  · exact Or.inr rfl

theorem dispatch_lists (s : EventLoop) :
    s.dispatch.sources = s.sources ∧ s.dispatch.deletedSources = s.deletedSources := by
  obtain ⟨e, waiting, -, hdispatch⟩ | hdispatch := dispatch_cases s
  · rw [hdispatch]
    exact ⟨rfl, rfl⟩
  · rw [hdispatch]
    exact ⟨rfl, rfl⟩

/-- A callback is entered for a source that has been waiting. What may be in use is on some
lists or waits. -/
theorem Kept.dispatch {ends uses : Touch → Option ℕ} (lists : EventLoop → ℕ → Prop)
    {s : EventLoop} (h : s.Kept ends uses fun s source => lists s source ∨ s.Waits source)
    (hlists : ∀ source, lists s.dispatch source → lists s source)
    (huses : ∀ source, uses (.dispatched source) = some source)
    (hends : ∀ source, ends (.dispatched source) = none) :
    s.dispatch.Kept ends uses fun s source => lists s source ∨ s.Waits source := by
  obtain ⟨e, waiting, hphase, hdispatch⟩ | hdispatch := dispatch_cases s
  · have hwaits : ∀ source, source ∈ (e :: waiting).map Prod.fst → s.Waits source := by
      intro source hsource
      simpa only [Waits, EventLoop.waiting, hphase] using hsource
    rw [hdispatch] at hlists ⊢
    apply Closed.extend h
    · intro source hsource
      obtain hin | hin := hsource
      · exact Or.inl (Or.inl (hlists source hin))
      · exact Or.inl (Or.inr (hwaits source (List.mem_cons_of_mem _ hin)))
    · exact fun _ => id
    · intro touch htouch source hsource
      rw [List.mem_singleton.mp htouch, huses] at hsource
      obtain rfl := Option.some.inj hsource
      exact Or.inr (hwaits e.1 List.mem_cons_self)
    · intro touch htouch source hsource
      rw [List.mem_singleton.mp htouch, hends] at hsource
      cases hsource
    · exact neverAfter_singleton _
  · rwa [hdispatch]

section Removed

/-- A source is taken off `sources` and the answer is that it is gone. -/
theorem Retired.remove {s s' : EventLoop} (h : s.Retired)
    (source : ℕ) (touches : List Touch) (hused : source < s.used)
    (hwaits : ¬s.Waits source) (hsources : s'.sources = s.sources.filter (· ≠ source))
    (hwaiting : s'.waiting = s.waiting) (hused' : s'.used = s.used)
    (htrace : s'.trace = s.trace ++ touches)
    (htouches : ∀ touch ∈ touches, touch.callback = none ∧
      ∀ other, touch.removal = some other → other = source) :
    s'.Retired := by
  unfold Retired Kept
  rw [htrace, hused']
  apply Closed.extend h
  · intro other hother
    obtain hin | hin := hother
    · rw [hsources] at hin
      exact Or.inl (Or.inl (List.mem_of_mem_filter hin))
    · rw [Waits, hwaiting] at hin
      exact Or.inl (Or.inr hin)
  · exact fun _ => id
  · intro touch htouch other hother
    rw [(htouches touch htouch).1] at hother
    cases hother
  · intro touch htouch other hother
    obtain rfl := (htouches touch htouch).2 other hother
    refine ⟨?_, Nat.not_le_of_lt hused⟩
    rintro (hin | hin)
    · simp [hsources] at hin
    · rw [Waits, hwaiting] at hin
      exact hwaits hin
  · exact neverAfter_of_unused fun touch htouch => (htouches touch htouch).1

theorem Retired.del {s : EventLoop} (hs : s.Sound) (h : s.Retired)
    {fd : ℕ} (hC : s.Undue (.call (.del fd))) :
    (s.eventloopDel fd).2.Retired := by
  obtain ⟨source, htarget, ⟨-, heq⟩ | ⟨-, -, heq⟩⟩ | heq := del_cases fd s
  · rw [heq]
    have hused := hs.used source (delTarget_some htarget).1
    apply h.remove source [.destroyed source, .removed source] hused (hC source htarget)
    · rfl
    · rfl
    · rfl
    · exact List.append_assoc _ _ _
    · simp [Touch.callback, Touch.removal]
  · rw [heq]
    have hused := hs.used source (delTarget_some htarget).1
    apply h.remove source [.unlinked source, .queued source, .removed source] hused
      (hC source htarget)
    · rfl
    · rfl
    · rfl
    · exact List.append_assoc _ _ _
    · simp [Touch.callback, Touch.removal]
  · rwa [heq]

/-- A batch holds no source that was removed. -/
theorem Retired.wait {s : EventLoop} (hs : s.Sound)
    (h : s.Retired) {ready : Ready}
    (hC : s.Undue (.wait ready)) :
    (s.step (.wait ready)).Retired := by
  simp only [step]
  split
  · rename_i hphase
    apply Closed.mono h
    · intro source hsource
      obtain hin | hwaits := hsource
      · exact Or.inl (Or.inl hin)
      · obtain ⟨hlinked, e, he, rfl⟩ := hs.linked_of_reported hwaits
        exact Or.inl (Or.inl (hlinked.resolve_right (hC hphase e he)))
    · exact fun _ => id
  · exact h

theorem Retired.dispatch {s : EventLoop} (h : s.Retired) : s.dispatch.Retired := by
  apply Kept.dispatch (fun s source => source ∈ s.sources) h
  · intro source hsource
    rwa [(dispatch_lists s).1] at hsource
  · exact fun source => rfl
  · exact fun source => rfl

theorem Retired.ret {s : EventLoop} (hs : s.Sound) (h : s.Retired)
    (remove : Bool) : (s.ret remove).Retired := by
  unfold EventLoop.ret
  split
  · rename_i waiting source hphase
    have hsame : s.waiting = waiting := by simp only [EventLoop.waiting, hphase]
    have hwaits : ∀ other, other ∈ waiting.map Prod.fst → s.Waits other := by
      intro other hother
      rwa [Waits, hsame]
    obtain ⟨hused, hrunning⟩ := hs.running hphase
    cases remove with
    | false =>
      apply Closed.mono h
      · intro other hother
        obtain hin | hin := hother
        · exact Or.inl (Or.inl hin)
        · exact Or.inl (Or.inr (hwaits other hin))
      · exact fun _ => id
    | true =>
      apply h.remove source [.removed source, .unlinked source, .queued source] hused
      · rwa [Waits, hsame]
      · rfl
      · exact hsame.symm
      · rfl
      · exact List.append_assoc _ _ _
      · simp [Touch.callback, Touch.removal]
  · exact h

theorem Retired.sweep {s : EventLoop} (hs : s.Sound)
    (h : s.Retired) :
    s.sweep.Retired := by
  by_cases hphase : s.phase = .batch [] none
  · have hwaiting := sweep_waiting hphase
    rw [sweep_eq hs.nodup hphase] at hwaiting ⊢
    apply Closed.extend h
    · intro source hsource
      obtain hin | hin := hsource
      · exact Or.inl (Or.inl hin)
      · rw [Waits, hwaiting] at hin
        cases hin
    · exact fun _ => id
    · intro touch htouch source hsource
      obtain ⟨deleted, -, rfl⟩ := List.mem_map.mp htouch
      cases hsource
    · intro touch htouch source hsource
      obtain ⟨deleted, -, rfl⟩ := List.mem_map.mp htouch
      cases hsource
    · apply neverAfter_of_unused
      intro touch htouch
      obtain ⟨deleted, -, rfl⟩ := List.mem_map.mp htouch
      rfl
  · rwa [sweep_of_ne hphase]

/-- Once `eventloop_del` or its own callback said that a source is gone, its callback is not
entered again, as long as no removal is overtaken by the batch. -/
theorem removed_never_dispatched (inputs : List LoopInput) (h : Meets step Undue init inputs) :
    NeverAfter Touch.removal Touch.callback (run step init inputs).trace := by
  have hrun := run_invariant
    (I := fun s => s.Sound ∧ s.Retired) ?_
    ⟨sound_init, Closed.nil⟩ h
  · exact hrun.2.never
  · rintro s i ⟨hs, hk⟩ hC
    refine ⟨hs.step i, ?_⟩
    obtain hquiet | ⟨fd, rfl⟩ | ⟨ready, rfl⟩ | rfl | ⟨remove, rfl⟩ | rfl := quiet_step s i
    · exact hk.quiet hquiet hquiet.callable
    · exact hk.del hs hC
    · exact hk.wait hs hC
    · exact hk.dispatch
    · exact hk.ret hs remove
    · exact hk.sweep hs

/-- A client's callback that removes its own source, alone in its batch. -/
def clientLeaves : List LoopInput :=
  twoSources .normal ++
    [.wait ⟨[(7, 1)], by decide⟩, .dispatch, .call (.del 7), .call (.close 7), .ret true, .sweep]

theorem clientLeaves_not_dispatched : Meets step Undue init clientLeaves ∧
    NeverAfter Touch.removal Touch.callback (run step init clientLeaves).trace :=
  ⟨by decide, removed_never_dispatched clientLeaves (by decide)⟩

/-- The seat goes while its null timer is ready. -/
def seatRemoved : List LoopInput :=
  twoSources .high ++
    [.wait bothReady, .dispatch, .call (.del 7), .call (.close 7), .ret false, .dispatch]

/-- The callback of the timer is entered although the timer was removed. -/
theorem seatRemoved_dispatched :
    ¬NeverAfter Touch.removal Touch.callback (run step init seatRemoved).trace := by
  have htrace : (run step init seatRemoved).trace =
      [.dispatched 0, .unlinked 1, .queued 1, .removed 1, .dispatched 1] := by decide
  rw [htrace]
  simp [NeverAfter, Touch.removal, Touch.callback]

end Removed

section Destroyed

/-- The steps of removal that leave the source in memory. -/
theorem Buried.defer {s s' : EventLoop} (h : s.Buried) (source : ℕ) (touches : List Touch)
    (hlinked : s.Linked source)
    (halive : ∀ other, s'.Reachable other → s.Reachable other ∨ other = source)
    (hused : s'.used = s.used) (htrace : s'.trace = s.trace ++ touches)
    (htouches : ∀ touch ∈ touches, touch.destruction = none ∧
      ∀ other, touch.access = some other → other = source) : s'.Buried := by
  unfold Buried Kept
  rw [htrace, hused]
  apply Closed.extend h
  · intro other hother
    obtain hin | rfl := halive other hother
    · exact Or.inl hin
    · exact Or.inl (Or.inl hlinked)
  · exact fun _ => id
  · intro touch htouch other hother
    obtain rfl := (htouches touch htouch).2 other hother
    exact Or.inl hlinked
  · intro touch htouch other hother
    rw [(htouches touch htouch).1] at hother
    cases hother
  · exact neverAfter_of_none fun touch htouch => (htouches touch htouch).1

theorem Buried.del {s : EventLoop} (hs : s.Sound) (h : s.Buried) {fd : ℕ}
    (hC : s.Unspent (.call (.del fd))) : (s.eventloopDel fd).2.Buried := by
  obtain ⟨source, htarget, ⟨hstop, heq⟩ | ⟨-, -, heq⟩⟩ | heq := del_cases fd s
  · rw [heq]
    have hlinked := (delTarget_some htarget).1
    have htrace : ((s.eventsourceDel source).note [.removed source]).trace =
        s.trace ++ [.destroyed source, .removed source] := List.append_assoc _ _ _
    have htouches : ∀ touch ∈ [Touch.destroyed source, .removed source], ∀ other,
        touch.access = some other ∨ touch.destruction = some other → source = other := by
      simp [Touch.access, Touch.destruction]
    unfold Buried Kept
    rw [htrace]
    apply Closed.extend h
    · intro other hother
      obtain hin | hin := hother
      · exact Or.inl (Or.inl (destroy_linked.mp hin).1)
      · exact Or.inl (Or.inr hin)
    · exact fun _ => id
    · intro touch htouch other hother
      obtain rfl := htouches touch htouch other (Or.inl hother)
      exact Or.inl hlinked
    · intro touch htouch other hother
      obtain rfl := htouches touch htouch other (Or.inr hother)
      refine ⟨?_, Nat.not_le_of_lt (hs.used source hlinked)⟩
      rintro (hin | hin)
      · exact (destroy_linked.mp hin).2 rfl
      · exact hC hstop source htarget hin
    · simp [NeverAfter, Touch.access]
  · rw [heq]
    apply h.defer source [.unlinked source, .queued source, .removed source]
      (delTarget_some htarget).1
    · intro other hother
      obtain hin | hin := hother
      · exact (defer_linked.mp hin).imp_left Or.inl
      · exact Or.inl (Or.inr hin)
    · rfl
    · exact List.append_assoc _ _ _
    · simp [Touch.destruction, Touch.access]
  · rwa [heq]

/-- A batch is made of sources that are on a list. -/
theorem Buried.wait {s : EventLoop} (hs : s.Sound) (h : s.Buried) (ready : Ready) :
    (s.step (.wait ready)).Buried := by
  simp only [step]
  split
  · apply Closed.mono h
    · intro source hsource
      obtain hin | hwaits := hsource
      · exact Or.inl (Or.inl hin)
      · exact Or.inl (Or.inl (hs.linked_of_reported hwaits).1)
    · exact fun _ => id
  · exact h

theorem Buried.dispatch {s : EventLoop} (h : s.Buried) : s.dispatch.Buried := by
  apply Kept.dispatch Linked h
  · intro source hsource
    rwa [Linked, (dispatch_lists s).1, (dispatch_lists s).2] at hsource
  · exact fun source => rfl
  · exact fun source => rfl

theorem Buried.ret {s : EventLoop} (h : s.Buried) {remove : Bool} (hC : s.Unspent (.ret remove)) :
    (s.ret remove).Buried := by
  unfold EventLoop.ret
  split
  · rename_i waiting source hphase
    have hsame : s.waiting = waiting := by simp only [EventLoop.waiting, hphase]
    have hcurrent : source ∈ s.current := by simp only [current, hphase, Option.mem_def]
    cases remove with
    | false =>
      apply Closed.mono h
      · intro other hother
        obtain hin | hin := hother
        · exact Or.inl (Or.inl hin)
        · left
          right
          rwa [Waits, hsame]
      · exact fun _ => id
    | true =>
      apply h.defer source [.removed source, .unlinked source, .queued source] (hC source hcurrent)
      · intro other hother
        obtain hin | hin := hother
        · exact (defer_linked.mp hin).imp_left Or.inl
        · left
          right
          rwa [Waits, hsame]
      · rfl
      · exact List.append_assoc _ _ _
      · simp [Touch.destruction, Touch.access]
  · exact h

theorem Buried.sweep {s : EventLoop} (hs : s.Sound) (h : s.Buried) : s.sweep.Buried := by
  by_cases hphase : s.phase = .batch [] none
  · have hwaiting := sweep_waiting hphase
    rw [sweep_eq hs.nodup hphase] at hwaiting ⊢
    have hnodup := List.nodup_append.mp hs.nodup
    apply Closed.extend h
    · intro source hsource
      obtain (hin | hin) | hin := hsource
      · exact Or.inl (Or.inl (Or.inl hin))
      · cases hin
      · rw [Waits, hwaiting] at hin
        cases hin
    · exact fun _ => id
    · intro touch htouch source hsource
      obtain ⟨deleted, hdeleted, rfl⟩ := List.mem_map.mp htouch
      obtain rfl : deleted = source := Option.some.inj hsource
      exact Or.inl (Or.inr hdeleted)
    · intro touch htouch source hsource
      obtain ⟨deleted, hdeleted, rfl⟩ := List.mem_map.mp htouch
      obtain rfl : deleted = source := Option.some.inj hsource
      refine ⟨?_, Nat.not_le_of_lt (hs.used deleted (Or.inr hdeleted))⟩
      rintro ((hin | hin) | hin)
      · exact hnodup.2.2 deleted hin deleted hdeleted rfl
      · cases hin
      · rw [Waits, hwaiting] at hin
        cases hin
    · rw [NeverAfter, List.pairwise_map]
      apply hnodup.2.1.imp
      intro deleted other hne source hends huses
      obtain rfl : deleted = source := Option.some.inj hends
      exact hne (Option.some.inj huses).symm
  · rwa [sweep_of_ne hphase]

/-- A source that was destroyed is not dispatched, unlinked, queued or destroyed again, as long
as no source is destroyed that the batch still needs. -/
theorem destroyed_never_accessed (inputs : List LoopInput) (h : Meets step Unspent init inputs) :
    NeverAfter Touch.destruction Touch.access (run step init inputs).trace := by
  have hrun := run_invariant (I := fun s => s.Sound ∧ s.Buried) ?_ ⟨sound_init, Closed.nil⟩ h
  · exact hrun.2.never
  · rintro s i ⟨hs, hk⟩ hC
    refine ⟨hs.step i, ?_⟩
    obtain hquiet | ⟨fd, rfl⟩ | ⟨ready, rfl⟩ | rfl | ⟨remove, rfl⟩ | rfl := quiet_step s i
    · exact hk.quiet hquiet hquiet.reachable
    · exact hk.del hs hC
    · exact hk.wait hs ready
    · exact hk.dispatch
    · exact hk.ret hC
    · exact hk.sweep hs

theorem clientLeaves_destroyed_once : Meets step Unspent init clientLeaves ∧
    NeverAfter Touch.destruction Touch.access (run step init clientLeaves).trace :=
  ⟨by decide, destroyed_never_accessed clientLeaves (by decide)⟩

/-- A signal and the end of a client's connection in one batch. -/
def stoppedInBatch : List LoopInput :=
  twoSources .normal ++
    [.wait ⟨[(5, 1), (7, 1)], by decide⟩,
      .dispatch, .call .stop, .ret false,
      .dispatch, .call (.del 7), .call (.close 7), .ret true, .sweep]

/-- The client's source is freed, queued again and freed a second time. -/
theorem stoppedInBatch_destroyed_twice :
    ¬NeverAfter Touch.destruction Touch.access (run step init stoppedInBatch).trace := by
  have htrace : (run step init stoppedInBatch).trace =
      [.dispatched 0, .dispatched 1, .destroyed 1, .removed 1, .removed 1, .unlinked 1, .queued 1,
        .destroyed 1] := by decide
  rw [htrace]
  simp [NeverAfter, Touch.destruction, Touch.access]

end Destroyed

end EventLoop

end Swayclip
