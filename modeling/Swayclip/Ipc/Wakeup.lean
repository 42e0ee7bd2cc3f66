import Mathlib.Data.List.Find
import Swayclip.Ipc.Server

/-! # No output without a wake-up

A client whose write queue is not empty is polled for output. The loop knows sources by their
descriptors, so it has to be told apart which client has the entry of its descriptor: one that
was accepted in the iteration that goes on may lose it again, but nothing has been queued for
it.
-/

namespace Swayclip
open Library Library.Runs

namespace EventLoop

/-- The source is to be deleted, or its callback may still ask for that in this iteration. -/
def Doomed (s : EventLoop) (source : ℕ) : Prop :=
  source ∈ s.deletedSources ∨ source ∈ s.waiting.map Prod.fst ∨ source ∈ s.current

/-- `eventloop_find` finds the source for its descriptor, which is open. -/
structure Finds (s : EventLoop) (fd source : ℕ) : Prop where
  isOpen : s.isOpen fd = true
  found : s.eventloopFind s.sources fd = some source

/-- The source has the entry of its descriptor, and no other source is going to take it. -/
structure Polls (s : EventLoop) (fd source events : ℕ) : Prop where
  entry : s.epoll fd = some (source, events)
  alone : ∀ other, s.Doomed other → other ≠ source → (s.memory other).fd ≠ fd

/-- A batch is dispatched. -/
def InBatch (s : EventLoop) : Prop := s.phase ≠ .idle ∧ s.phase ≠ .prepare

theorem inBatch_of_batch {s : EventLoop} {waiting : List (ℕ × ℕ)} {current : Option ℕ}
    (h : s.phase = .batch waiting current) : s.InBatch := by
  rw [InBatch, h]
  exact ⟨by simp, by simp⟩

/-- The source cannot be dispatched in this iteration, and afterwards only if it has kept the
entry of its descriptor. -/
structure Unpolled (s : EventLoop) (fd source events : ℕ) : Prop where
  unreported : ¬ s.Doomed source
  entry : s.epoll fd = none ∨ s.InBatch ∧ s.epoll fd = some (source, events)

/-! ## What is done to other descriptors -/

/-- What happens to the loop is not about the descriptor of the source. -/
structure Spares (fd source : ℕ) (s s' : EventLoop) : Prop where
  isOpen : s.isOpen fd = true → s'.isOpen fd = true
  found : s.eventloopFind s.sources fd = some source →
    s'.eventloopFind s'.sources fd = some source
  entry : s'.epoll fd = s.epoll fd
  inBatch : s.InBatch → s'.InBatch
  doomed : ∀ other, s'.Doomed other → other ≠ source →
    s.Doomed other ∧ (s'.memory other).fd = (s.memory other).fd ∨ (s'.memory other).fd ≠ fd
  source : s'.Doomed source → s.Doomed source

section Spares
variable {s s' : EventLoop} {fd source events : ℕ}

theorem Finds.spared (h : s.Finds fd source) (hs : Spares fd source s s') : s'.Finds fd source :=
  ⟨hs.isOpen h.isOpen, hs.found h.found⟩

theorem Polls.spared (h : s.Polls fd source events) (hs : Spares fd source s s') :
    s'.Polls fd source events := by
  refine ⟨hs.entry.trans h.entry, fun other hother hne => ?_⟩
  rcases hs.doomed other hother hne with ⟨hdoomed, hfd⟩ | hfd
  · rw [hfd]
    exact h.alone other hdoomed hne
  · exact hfd

theorem Unpolled.spared (h : s.Unpolled fd source events) (hs : Spares fd source s s') :
    s'.Unpolled fd source events := by
  refine ⟨fun hdoomed => h.unreported (hs.source hdoomed), ?_⟩
  rw [hs.entry]
  exact h.entry.imp_right fun hentry => ⟨hs.inBatch hentry.1, hentry.2⟩

theorem Spares.refl (fd source : ℕ) (s : EventLoop) : Spares fd source s s :=
  ⟨fun h => h, fun h => h, rfl, fun h => h, fun _ h _ => Or.inl ⟨h, rfl⟩, fun h => h⟩

theorem Finds.mem (h : s.Finds fd source) : source ∈ s.sources := (find_some h.found).1

theorem Finds.memory_fd (h : s.Finds fd source) : (s.memory source).fd = fd :=
  (find_some h.found).2

/-- Taking another source from the list does not change what is found. -/
theorem find_unlink {other : ℕ} (hne : other ≠ source)
    (h : s.eventloopFind s.sources fd = some source) :
    s.eventloopFind (s.unlink other).sources fd = some source := by
  obtain ⟨hfd, before, after, hsources, hbefore⟩ := List.find?_eq_some_iff_append.mp h
  rw [eventloopFind, unlink, hsources, List.filter_append,
    List.filter_cons_of_pos (by simpa using hne.symm), List.find?_eq_some_iff_append]
  exact ⟨hfd, _, _, rfl, fun x hx => hbefore x (List.mem_of_mem_filter hx)⟩

/-- The descriptors of the sources on the list are what counts. -/
theorem find_of_memory {memory : ℕ → EventSource} {list : List ℕ}
    (hmemory : ∀ x ∈ list, (memory x).fd = (s.memory x).fd) :
    list.find? (fun x => (memory x).fd = fd) = s.eventloopFind list fd :=
  List.find?_congr fun x hx => by rw [hmemory x hx]

theorem Finds.ne_of_fd (h : s.Finds fd source) {other : ℕ} (hfd : (s.memory other).fd ≠ fd) :
    other ≠ source := by
  rintro rfl
  exact hfd h.memory_fd

theorem Sound.doomed_used (h : s.Sound) {other : ℕ} (hother : s.Doomed other) :
    other < s.used := by
  rcases hother with hdeleted | hwaiting | hcurrent
  · exact h.used other (Or.inr hdeleted)
  · obtain ⟨e, he, rfl⟩ := List.mem_map.mp hwaiting
    exact h.waitingUsed e he
  · exact h.currentUsed other hcurrent

theorem spares_add (hs : s.Sound) {fd' : ℕ} (hfd : fd' ≠ fd)
    (priority : EventPriority) (events : ℕ) :
    Spares fd source s (s.eventloopAdd fd' priority events).2 := by
  rcases add_cases fd' priority events s with ⟨-, -, heq⟩ | heq
  · rw [heq]
    have hold : ∀ x ∈ s.sources, Function.update s.memory s.used ⟨fd', events, priority⟩ x =
        s.memory x := fun x hx => Function.update_of_ne (hs.used x (Or.inl hx)).ne _ _
    refine ⟨fun h => h, fun hfound => ?_, Function.update_of_ne hfd.symm _ _, fun h => h,
      fun other hother _ => Or.inl ⟨hother, ?_⟩, fun h => h⟩
    · rw [eventloopFind, List.find?_cons_of_neg (by simpa using hfd),
        find_of_memory fun x hx => congrArg EventSource.fd (hold x hx), hfound]
    · exact congrArg EventSource.fd (Function.update_of_ne (hs.doomed_used hother).ne _ _)
  · rw [heq]
    exact .refl ..

theorem spares_defer {other : ℕ} (hfd : (s.memory other).fd ≠ fd) (hne : other ≠ source) :
    Spares fd source s (s.defer other) := by
  refine ⟨fun h => h, fun h => find_unlink hne h, rfl, fun h => h, fun x hx _ => ?_, fun hx => ?_⟩
  · rcases hx with hdeleted | hphase
    · rcases List.mem_cons.mp hdeleted with rfl | hdeleted
      · exact Or.inr hfd
      · exact Or.inl ⟨Or.inl (List.mem_of_mem_filter hdeleted), rfl⟩
    · exact Or.inl ⟨Or.inr hphase, rfl⟩
  · rcases hx with hdeleted | hphase
    · rcases List.mem_cons.mp hdeleted with rfl | hdeleted
      · exact absurd rfl hne
      · exact Or.inl (List.mem_of_mem_filter hdeleted)
    · exact Or.inr hphase

theorem spares_destroy {other : ℕ} (hfd : (s.memory other).fd ≠ fd) (hne : other ≠ source) :
    Spares fd source s (s.eventsourceDel other) := by
  refine ⟨fun h => h, fun h => find_unlink hne h, ?_, fun h => h, fun x hx _ => Or.inl ⟨?_, rfl⟩,
    fun hx => ?_⟩
  · rw [destroy_epoll, if_neg hfd.symm]
  · exact hx.imp_left List.mem_of_mem_filter
  · exact hx.imp_left List.mem_of_mem_filter

theorem Spares.note (h : Spares fd source s s') (touches : List Touch) :
    Spares fd source s (s'.note touches) :=
  ⟨h.isOpen, h.found, h.entry, h.inBatch, h.doomed, h.source⟩

theorem spares_del (h : s.Finds fd source) {fd' : ℕ} (hfd : fd' ≠ fd) :
    Spares fd source s (s.eventloopDel fd').2 := by
  rcases del_cases fd' s with ⟨other, htarget, ⟨-, heq⟩ | ⟨-, -, heq⟩⟩ | heq
  · have hother : (s.memory other).fd ≠ fd := (delTarget_some htarget).2 ▸ hfd
    rw [heq]
    exact (spares_destroy hother (h.ne_of_fd hother)).note _
  · have hother : (s.memory other).fd ≠ fd := (delTarget_some htarget).2 ▸ hfd
    rw [heq]
    exact (spares_defer hother (h.ne_of_fd hother)).note _
  · rw [heq]
    exact .refl ..

theorem spares_mod {fd' : ℕ} (hfd : fd' ≠ fd) (events : ℕ) :
    Spares fd source s (s.eventloopMod fd' events).2 := by
  rcases mod_cases fd' events s with ⟨other, -, hother, -, heq⟩ | heq
  · rw [heq]
    have hmemory : ∀ x, (Function.update s.memory other { s.memory other with events := events }
        x).fd = (s.memory x).fd := by
      intro x
      rw [Function.update_apply]
      split
      · rename_i hx
        rw [hx]
      · rfl
    exact ⟨fun h => h, fun hfound => (find_of_memory fun x _ => hmemory x).trans hfound,
      Function.update_of_ne hfd.symm _ _, fun h => h, fun x hx _ => Or.inl ⟨hx, hmemory x⟩,
      fun h => h⟩
  · rw [heq]
    exact .refl ..

theorem spares_open (fd' : ℕ) : Spares fd source s (s.openFd fd') := by
  unfold openFd
  split
  · exact .refl ..
  · refine ⟨fun h => ?_, fun h => h, rfl, fun h => h, fun _ hx _ => Or.inl ⟨hx, rfl⟩, fun h => h⟩
    simp only [Function.update_apply]
    split
    · rfl
    · exact h

theorem spares_close {fd' : ℕ} (hfd : fd' ≠ fd) : Spares fd source s (s.closeFd fd') :=
  ⟨fun h => (Function.update_of_ne hfd.symm _ _).trans h, fun h => h,
    Function.update_of_ne hfd.symm _ _, fun h => h, fun _ hx _ => Or.inl ⟨hx, rfl⟩, fun h => h⟩

theorem spares_dispatch : Spares fd source s s.dispatch := by
  have hdoomed : ∀ x, s.dispatch.Doomed x → s.Doomed x := by
    intro x
    unfold dispatch
    split
    · rename_i e rest hphase
      simp only [Doomed, note_eq, waiting, current, hphase]
      rintro (hdeleted | hwaiting | hcurrent)
      · exact Or.inl hdeleted
      · exact Or.inr (Or.inl (List.mem_cons_of_mem _ hwaiting))
      · obtain rfl := Option.some.inj hcurrent
        exact Or.inr (Or.inl List.mem_cons_self)
    · exact fun h => h
  have hsame : s.dispatch.isOpen = s.isOpen ∧ s.dispatch.sources = s.sources ∧
      s.dispatch.memory = s.memory ∧ s.dispatch.epoll = s.epoll ∧
      (s.InBatch → s.dispatch.InBatch) := by
    unfold dispatch
    split
    · exact ⟨rfl, rfl, rfl, rfl, fun _ => inBatch_of_batch rfl⟩
    · exact ⟨rfl, rfl, rfl, rfl, fun h => h⟩
  obtain ⟨hopen, hsources, hmemory, hepoll, hbatch⟩ := hsame
  refine ⟨fun h => by rw [hopen, h], fun h => ?_, by rw [hepoll], hbatch,
    fun x hx _ => Or.inl ⟨hdoomed x hx, by rw [hmemory]⟩, hdoomed source⟩
  rw [eventloopFind, hsources, hmemory]
  exact h

theorem spares_ret {remove : Bool}
    (h : remove = true → ∀ other ∈ s.current, other ≠ source) :
    Spares fd source s (s.ret remove) := by
  unfold ret
  split
  · rename_i waiting other hphase
    have hcurrent : s.current = some other := by rw [current, hphase]
    have hdoomed : ∀ x, x ∈ s.deletedSources ∨ x ∈ waiting.map Prod.fst ∨ x = other →
        s.Doomed x := by
      rintro x (hdeleted | hwaiting | rfl)
      · exact Or.inl hdeleted
      · exact Or.inr (Or.inl (by simpa only [EventLoop.waiting, hphase] using hwaiting))
      · exact Or.inr (Or.inr hcurrent)
    cases remove with
    | false =>
      have hleft : ∀ x, ({ s with phase := .batch waiting none } : EventLoop).Doomed x →
          s.Doomed x :=
        fun x hx => hdoomed x (hx.imp_right fun hx => Or.inl (hx.resolve_right fun h => by cases h))
      exact ⟨fun h => h, fun h => h, rfl, fun _ => inBatch_of_batch rfl,
        fun x hx _ => Or.inl ⟨hleft x hx, rfl⟩, hleft source⟩
    | true =>
      have hne : other ≠ source := h rfl other hcurrent
      have hremoved : ∀ x, ((({ s with phase := .batch waiting none } : EventLoop).note
          [.removed other]).defer other).Doomed x → s.Doomed x := by
        rintro x (hdeleted | hwaiting | hcurrent)
        · rcases List.mem_cons.mp hdeleted with rfl | hdeleted
          · exact hdoomed x (Or.inr (Or.inr rfl))
          · exact hdoomed x (Or.inl (List.mem_of_mem_filter hdeleted))
        · exact hdoomed x (Or.inr (Or.inl hwaiting))
        · cases hcurrent
      exact ⟨fun h => h, fun h => find_unlink hne h, rfl, fun _ => inBatch_of_batch rfl,
        fun x hx _ => Or.inl ⟨hremoved x hx, rfl⟩, hremoved source⟩
  · exact .refl ..

end Spares

/-! ## Between and at the ends of iterations -/

section Iterations
variable {s : EventLoop} {fd source events : ℕ}

theorem Polls.wait (hs : s.Sound) (h : s.Polls fd source events) (ready : Ready) :
    (s.step (.wait ready)).Polls fd source events := by
  simp only [step]
  split
  · refine ⟨h.entry, fun other hother hne hfd => ?_⟩
    rcases hother with hdeleted | hwaiting | hcurrent
    · exact h.alone other (Or.inl hdeleted) hne hfd
    · obtain ⟨e, he, rfl⟩ := List.mem_map.mp hwaiting
      obtain ⟨fd', events', hentry⟩ := mem_reported ((buckets_perm _ s).mem_iff.mp he)
      obtain ⟨-, hfd', -⟩ := hs.entry fd' e.1 events' hentry
      obtain rfl : fd' = fd := hfd'.symm.trans hfd
      exact hne (congrArg Prod.fst (Option.some.inj (hentry.symm.trans h.entry)))
    · cases hcurrent
  · exact h

theorem Unpolled.wait (hs : s.Sound) (hfinds : s.Finds fd source) (h : s.Unpolled fd source events)
    (ready : Ready) : (s.step (.wait ready)).Unpolled fd source events := by
  simp only [step]
  split
  · rename_i hphase
    have hnone : s.epoll fd = none := h.entry.resolve_right fun hbatch => hbatch.1.2 hphase
    refine ⟨fun hdoomed => ?_, Or.inl hnone⟩
    rcases hdoomed with hdeleted | hwaiting | hcurrent
    · exact h.unreported (Or.inl hdeleted)
    · obtain ⟨e, he, rfl⟩ := List.mem_map.mp hwaiting
      obtain ⟨fd', events', hentry⟩ := mem_reported ((buckets_perm _ s).mem_iff.mp he)
      obtain ⟨-, hfd', -⟩ := hs.entry fd' e.1 events' hentry
      obtain rfl : fd' = fd := hfd'.symm.trans hfinds.memory_fd
      cases hentry.symm.trans hnone
    · cases hcurrent
  · exact h

/-- The loop starts or stops to wait. -/
theorem Polls.between (h : s.Polls fd source events) {phase : Phase}
    (hphase : phase = .idle ∨ phase = .prepare) (stop : Bool) :
    ({ s with stop := stop, phase := phase } : EventLoop).Polls fd source events := by
  refine ⟨h.entry, fun other hother hne => h.alone other (Or.inl ?_) hne⟩
  rcases hphase with rfl | rfl <;> exact hother.resolve_right (by rintro (h | h) <;> cases h)

theorem Unpolled.between (h : s.Unpolled fd source events) (hnone : s.epoll fd = none)
    {phase : Phase} (hphase : phase = .idle ∨ phase = .prepare) (stop : Bool) :
    ({ s with stop := stop, phase := phase } : EventLoop).Unpolled fd source events := by
  refine ⟨fun hdoomed => h.unreported (Or.inl ?_), Or.inl hnone⟩
  rcases hphase with rfl | rfl <;> exact hdoomed.resolve_right (by rintro (h | h) <;> cases h)

theorem Finds.sweep (hs : s.Sound) (h : s.Finds fd source) : s.sweep.Finds fd source := by
  by_cases hphase : s.phase = .batch [] none
  · rw [sweep_eq hs.nodup hphase]
    exact ⟨h.isOpen, h.found⟩
  · rwa [sweep_of_ne hphase]

/-- After an iteration nothing is left to be deleted. -/
theorem sweep_doomed (hs : s.Sound) (hphase : s.phase = .batch [] none) (other : ℕ) :
    ¬ s.sweep.Doomed other := by
  intro hother
  rw [sweep_eq hs.nodup hphase] at hother
  cases hstop : s.stop <;> simp [Doomed, waiting, current, hstop] at hother

theorem Polls.sweep (hs : s.Sound) (hfinds : s.Finds fd source) (h : s.Polls fd source events) :
    s.sweep.Polls fd source events := by
  by_cases hphase : s.phase = .batch [] none
  · have hfree : s.deletedSources.any (fun other => (s.memory other).fd == fd) = false := by
      rw [List.any_eq_false]
      intro other hother
      rw [beq_iff_eq]
      refine h.alone other (Or.inl hother) ?_
      rintro rfl
      exact (List.nodup_append.mp hs.nodup).2.2 other hfinds.mem other hother rfl
    have hnone := sweep_doomed hs hphase
    rw [sweep_eq hs.nodup hphase] at hnone ⊢
    exact ⟨by simp only [hfree, cond_false, h.entry],
      fun other hother => absurd hother (hnone other)⟩
  · rwa [sweep_of_ne hphase]

/-- At the end of the iteration it turns out whether the source has kept its entry. -/
theorem Unpolled.sweep (hs : s.Sound) (h : s.Unpolled fd source events) :
    s.sweep.Polls fd source events ∨ s.sweep.Unpolled fd source events := by
  by_cases hphase : s.phase = .batch [] none
  · have hnone := sweep_doomed hs hphase
    have hentry : s.sweep.epoll fd = none ∨ s.sweep.epoll fd = some (source, events) := by
      rw [sweep_eq hs.nodup hphase]
      simp only
      cases s.deletedSources.any (fun other => (s.memory other).fd == fd) with
      | true => exact Or.inl rfl
      | false => exact h.entry.imp_right And.right
    rcases hentry with hentry | hentry
    · exact Or.inr ⟨hnone source, Or.inl hentry⟩
    · exact Or.inl ⟨hentry, fun other hother => absurd hother (hnone other)⟩
  · rw [sweep_of_ne hphase]
    exact Or.inr h

/-- `eventloop_mod` for a source that has the entry of its descriptor. -/
theorem Polls.mod (hs : s.Sound) (hfinds : s.Finds fd source) (h : s.Polls fd source events)
    (events' : ℕ) : (s.eventloopMod fd events').1 = true ∧
      (s.eventloopMod fd events').2.Finds fd source ∧
      (s.eventloopMod fd events').2.Polls fd source events' := by
  obtain ⟨-, -, hevents⟩ := hs.entry fd source events h.entry
  have hentry : (s.epoll fd).isNone = false := by rw [h.entry]; rfl
  simp only [eventloopMod, hfinds.found, hevents, hentry]
  split
  · rename_i heq
    exact ⟨rfl, hfinds, heq ▸ h⟩
  · have hmemory : ∀ x, (Function.update s.memory source { s.memory source with events := events' }
        x).fd = (s.memory x).fd := by
      intro x
      simp only [Function.update_apply]
      split
      · rename_i hx
        rw [hx]
      · rfl
    refine ⟨rfl, ⟨hfinds.isOpen, (find_of_memory fun x _ => hmemory x).trans hfinds.found⟩,
      Function.update_self .., fun other hother hne => ?_⟩
    exact (hmemory other).trans_ne (h.alone other hother hne)

end Iterations

end EventLoop

/-! ## How a client stands -/

namespace Connection

/-- The client is polled, and for output if anything is queued. -/
def Polled (loop : EventLoop) (c : Connection) : Prop :=
  ∃ events, loop.Polls c.fd c.source events ∧
    (c.writeQueue ≠ [] → events = epollin ||| epollout)

/-- The client has been accepted in this iteration or cannot be heard, and has not been served. -/
def Unserved (loop : EventLoop) (c : Connection) : Prop :=
  loop.Unpolled c.fd c.source epollin ∧ c.events = [] ∧ c.writeQueue = []

structure Stands (loop : EventLoop) (c : Connection) : Prop where
  finds : loop.Finds c.fd c.source
  standing : c.Polled loop ∨ c.Unserved loop

/-- No request is being handled, and no event waits for the end of one. -/
def AtRest (c : Connection) : Prop := c.handlingReq = false ∧ c.pendingEvents = []

section Standing
variable {c : Connection} {loop loop' : EventLoop}

theorem Polled.spared (h : c.Polled loop) (hs : EventLoop.Spares c.fd c.source loop loop') :
    c.Polled loop' := by
  obtain ⟨events, hpolls, hqueue⟩ := h
  exact ⟨events, hpolls.spared hs, hqueue⟩

theorem Stands.spared (h : c.Stands loop) (hs : EventLoop.Spares c.fd c.source loop loop') :
    c.Stands loop' :=
  ⟨h.finds.spared hs, h.standing.imp (fun hp => hp.spared hs) fun hw => ⟨hw.1.spared hs, hw.2⟩⟩

theorem Stands.wait (h : c.Stands loop) (hs : loop.Sound) (ready : Ready) :
    c.Stands (loop.step (.wait ready)) := by
  refine ⟨?_, h.standing.imp ?_ fun hw => ⟨hw.1.wait hs h.finds ready, hw.2⟩⟩
  · simp only [EventLoop.step]
    split
    · exact ⟨h.finds.isOpen, h.finds.found⟩
    · exact h.finds
  · rintro ⟨events, hpolls, hqueue⟩
    exact ⟨events, hpolls.wait hs ready, hqueue⟩

theorem Stands.between (h : c.Stands loop) (hbatch : ¬ loop.InBatch) {phase : Phase}
    (hphase : phase = .idle ∨ phase = .prepare) (stop : Bool) :
    c.Stands { loop with stop := stop, phase := phase } := by
  refine ⟨⟨h.finds.isOpen, h.finds.found⟩, h.standing.imp ?_ ?_⟩
  · rintro ⟨events, hpolls, hqueue⟩
    exact ⟨events, hpolls.between hphase stop, hqueue⟩
  · rintro ⟨hunpolled, hsilent⟩
    have hnone := hunpolled.entry.resolve_right fun hentry => hbatch hentry.1
    exact ⟨hunpolled.between hnone hphase stop, hsilent⟩

theorem Stands.sweep (h : c.Stands loop) (hs : loop.Sound) : c.Stands loop.sweep := by
  refine ⟨h.finds.sweep hs, ?_⟩
  rcases h.standing with ⟨events, hpolls, hqueue⟩ | ⟨hunpolled, hevents, hqueue⟩
  · exact Or.inl ⟨events, hpolls.sweep hs h.finds, hqueue⟩
  · rcases hunpolled.sweep hs with hpolls | hunpolled
    · exact Or.inl ⟨epollin, hpolls, fun hne => absurd hqueue hne⟩
    · exact Or.inr ⟨hunpolled, hevents, hqueue⟩

/-- Whoever is subscribed or about to be served is polled. -/
theorem Stands.polled_of_events (h : c.Stands loop) (hevents : c.events ≠ []) : c.Polled loop :=
  h.standing.resolve_right fun hw => hevents hw.2.1

theorem Stands.polled_of_doomed (h : c.Stands loop) (hdoomed : loop.Doomed c.source) :
    c.Polled loop :=
  h.standing.resolve_right fun hw => hw.1.unreported hdoomed

end Standing

end Connection

namespace Server

/-- What holds of the server; `served` is the descriptor of the client whose callback runs. -/
structure Serving (served : Option ℕ) (s : Server) : Prop where
  sound : s.loop.Sound
  fds : (s.connections.map Connection.fd).Nodup
  stands : ∀ c ∈ s.connections, c.Stands s.loop
  polled : ∀ c ∈ s.connections, served = some c.fd → c.Polled s.loop
  atRest : ∀ c ∈ s.connections, served ≠ some c.fd → c.AtRest
  notCurrent : ∀ c ∈ s.connections, served ≠ some c.fd → c.source ∉ s.loop.current

section Serving
variable {s : Server} {served : Option ℕ} {fd : ℕ}

theorem forall_onConnection {f : Connection → Connection} {P : Connection → Prop}
    (hown : ∀ c ∈ s.connections, c.fd = fd → P (f c))
    (hother : ∀ c ∈ s.connections, c.fd ≠ fd → P c) :
    ∀ c ∈ (s.onConnection fd f).connections, P c := by
  intro c' hc'
  obtain ⟨c, hc, rfl⟩ := List.mem_map.mp hc'
  split
  · rename_i hfd
    exact hown c hc hfd
  · rename_i hfd
    exact hother c hc hfd

theorem onConnection_fds {f : Connection → Connection} (hf : ∀ c, (f c).fd = c.fd) :
    (s.onConnection fd f).connections.map Connection.fd = s.connections.map Connection.fd := by
  rw [onConnection, List.map_map]
  refine List.map_congr_left fun c _ => ?_
  rw [Function.comp_apply]
  split
  · exact hf c
  · rfl

theorem findConnection_some {c : Connection} (h : s.findConnection fd = some c) :
    c ∈ s.connections ∧ c.fd = fd :=
  ⟨List.mem_of_find?_eq_some h, by simpa using List.find?_some h⟩

/-- A client has one record. -/
theorem Serving.unique (h : s.Serving served) {c d : Connection} (hc : c ∈ s.connections)
    (hd : d ∈ s.connections) (hfd : c.fd = d.fd) : c = d :=
  List.inj_on_of_nodup_map h.fds hc hd hfd

/-- A source belongs to one client. -/
theorem Serving.unique_source (h : s.Serving served) {c d : Connection} (hc : c ∈ s.connections)
    (hd : d ∈ s.connections) (hsource : c.source = d.source) : c = d := by
  refine h.unique hc hd ?_
  rw [← (h.stands c hc).finds.memory_fd, ← (h.stands d hd).finds.memory_fd, hsource]

/-! ## Changes to a client -/

theorem Serving.onConnection (h : s.Serving served) {f : Connection → Connection}
    (hfd : ∀ c, (f c).fd = c.fd) (hsource : ∀ c, (f c).source = c.source)
    (hpolled : ∀ c ∈ s.connections, c.fd = fd → (f c).Polled s.loop)
    (hrest : ∀ c ∈ s.connections, c.fd = fd → served ≠ some fd → (f c).AtRest) :
    (s.onConnection fd f).Serving served := by
  refine ⟨h.sound, (onConnection_fds hfd).symm ▸ h.fds, ?_, ?_, ?_, ?_⟩
  · refine forall_onConnection (fun c hc hown => ⟨?_, Or.inl (hpolled c hc hown)⟩)
      fun c hc _ => h.stands c hc
    rw [hfd, hsource]
    exact (h.stands c hc).finds
  · exact forall_onConnection (fun c hc hown _ => hpolled c hc hown) fun c hc _ => h.polled c hc
  · refine forall_onConnection (fun c hc hown hserved => ?_) fun c hc _ => h.atRest c hc
    rw [hfd, hown] at hserved
    exact hrest c hc hown hserved
  · refine forall_onConnection (fun c hc _ hserved => ?_) fun c hc _ => h.notCurrent c hc
    rw [hfd] at hserved
    rw [hsource]
    exact h.notCurrent c hc hserved

/-- A change to the client that is served, which does not queue anything. -/
theorem Serving.change (h : s.Serving (some fd)) {f : Connection → Connection}
    (hfd : ∀ c, (f c).fd = c.fd) (hsource : ∀ c, (f c).source = c.source)
    (hqueue : ∀ c ∈ s.connections, c.fd = fd → (f c).writeQueue ≠ [] → c.writeQueue ≠ []) :
    (s.onConnection fd f).Serving (some fd) := by
  refine h.onConnection hfd hsource (fun c hc hown => ?_) fun _ _ _ hne => absurd rfl hne
  obtain ⟨events, hpolls, hout⟩ := h.polled c hc (by rw [hown])
  rw [← hfd c, ← hsource c] at hpolls
  exact ⟨events, hpolls, fun hne => hout (hqueue c hc hown hne)⟩

theorem mod_current (fd events : ℕ) (loop : EventLoop) :
    (loop.eventloopMod fd events).2.current = loop.current := by
  rcases EventLoop.mod_cases fd events loop with ⟨_, _, _, _, heq⟩ | heq <;> rw [heq]
  rfl

/-- `eventloop_mod` for a client that is polled. -/
theorem Serving.mod (h : s.Serving served) (events : ℕ)
    (hpolled : ∀ c ∈ s.connections, c.fd = fd → c.Polled s.loop)
    (hqueue : ∀ c ∈ s.connections, c.fd = fd → c.writeQueue ≠ [] →
      events = epollin ||| epollout) :
    (s.eventloopMod fd events).Serving served ∧ ∀ c ∈ s.connections, c.fd = fd →
      (s.loop.eventloopMod fd events).1 = true ∧
        (s.eventloopMod fd events).loop.Polls c.fd c.source events := by
  have hown : ∀ c ∈ s.connections, c.fd = fd → (s.loop.eventloopMod fd events).1 = true ∧
      (s.eventloopMod fd events).loop.Finds c.fd c.source ∧
      (s.eventloopMod fd events).loop.Polls c.fd c.source events := by
    rintro c hc rfl
    obtain ⟨_, hpolls, -⟩ := hpolled c hc rfl
    exact hpolls.mod h.sound (h.stands c hc).finds events
  have hother : ∀ c ∈ s.connections, c.fd ≠ fd →
      EventLoop.Spares c.fd c.source s.loop (s.eventloopMod fd events).loop :=
    fun c _ hne => EventLoop.spares_mod hne.symm events
  refine ⟨⟨h.sound.mod fd events, h.fds, fun c hc => ?_, fun c hc hserved => ?_, h.atRest, ?_⟩,
    fun c hc hfd => ⟨(hown c hc hfd).1, (hown c hc hfd).2.2⟩⟩
  · by_cases hfd : c.fd = fd
    · obtain ⟨-, hfinds, hpolls⟩ := hown c hc hfd
      exact ⟨hfinds, Or.inl ⟨events, hpolls, hqueue c hc hfd⟩⟩
    · exact (h.stands c hc).spared (hother c hc hfd)
  · by_cases hfd : c.fd = fd
    · exact ⟨events, (hown c hc hfd).2.2, hqueue c hc hfd⟩
    · exact (h.polled c hc hserved).spared (hother c hc hfd)
  · intro c hc hserved
    change c.source ∉ (s.loop.eventloopMod fd events).2.current
    rw [mod_current]
    exact h.notCurrent c hc hserved

/-- Whatever is done to the queues of a client that is polled, it is polled for output. -/
theorem Serving.post (h : s.Serving served) {f : Connection → Connection}
    (hfd : ∀ c, (f c).fd = c.fd) (hsource : ∀ c, (f c).source = c.source)
    (hpolled : ∀ c ∈ s.connections, c.fd = fd → c.Polled s.loop)
    (hrest : ∀ c ∈ s.connections, c.fd = fd → served ≠ some fd → (f c).AtRest) :
    (s.post fd f).Serving served := by
  obtain ⟨hmod, hpolls⟩ := h.mod (epollin ||| epollout) hpolled fun _ _ _ _ => rfl
  refine hmod.onConnection hfd hsource (fun c hc hown => ⟨epollin ||| epollout, ?_, fun _ => rfl⟩)
    hrest
  rw [hfd, hsource]
  exact (hpolls c hc hown).2

/-! ## Events -/

theorem takeEvent_fields (r : Rendering) (msg : EventMsg) (c : Connection) :
    (c.takeEvent r msg).fd = c.fd ∧ (c.takeEvent r msg).source = c.source := by
  unfold Connection.takeEvent
  split <;> exact ⟨rfl, rfl⟩

theorem Serving.emitTo (h : s.Serving served) (r : Rendering) (msg : EventMsg) (fd : ℕ) :
    (s.emitTo r msg fd).Serving served := by
  unfold Server.emitTo
  split
  · exact h
  · rename_i c hfound
    obtain ⟨hc, rfl⟩ := findConnection_some hfound
    split
    · rename_i hflag
      refine h.post (fun c => (takeEvent_fields r msg c).1) (fun c => (takeEvent_fields r msg c).2)
        (fun d hd hfd => ?_) fun d hd hfd hserved => ?_
      · obtain rfl := h.unique hc hd hfd.symm
        exact (h.stands c hc).polled_of_events fun hnone => by simp [hnone] at hflag
      · obtain ⟨hhandling, hpending⟩ := h.atRest d hd (by rwa [hfd])
        rw [Connection.takeEvent, hhandling]
        exact ⟨hhandling, hpending⟩
    · exact h

theorem Serving.event (h : s.Serving served) (r : Rendering) (msg : EventMsg) :
    (s.ipcEvent r msg).Serving served := by
  simp only [ipcEvent, ipcEmitEvent]
  split
  · exact h
  · split
    · exact h
    · exact List.foldlRecOn _ _ h fun x hx fd _ => hx.emitTo r msg fd

/-! ## Requests -/

theorem Serving.reply (h : s.Serving (some fd)) (r : Rendering) (msg : Message) :
    (s.post fd (Connection.ipcCtWriteMsg r msg)).Serving (some fd) :=
  h.post (fun _ => rfl) (fun _ => rfl) (fun c hc hfd => h.polled c hc (by rw [hfd]))
    fun _ _ _ hne => absurd rfl hne

theorem Serving.call (h : s.Serving (some fd)) (r : Rendering) (call : IpcCall) :
    (s.call r fd call).Serving (some fd) := by
  cases call with
  | event msg => exact h.event r msg
  | send msg =>
    simp only [Server.call, ipcClientSend]
    split
    · exact h
    · exact h.reply r msg
  | sendError | sendSuccess | sendSuccessFd => exact h.reply r _
  | setEvents | addHold => exact h.change (fun _ => rfl) (fun _ => rfl) fun _ _ _ hne => hne

/-- No request of the client with the descriptor is being handled. -/
structure Pausing (fd : ℕ) (s : Server) : Prop where
  serving : s.Serving (some fd)
  paused : ∀ c ∈ s.connections, c.fd = fd → c.handlingReq = false

theorem Pausing.handleRequest (h : s.Pausing fd) (r : Rendering) (calls : List IpcCall) :
    (s.handleRequest r fd calls).Pausing fd := by
  have hbegun : (s.onConnection fd (fun c => { c with handlingReq := true })).Serving (some fd) :=
    h.serving.change (fun _ => rfl) (fun _ => rfl) fun _ _ _ hne => hne
  have hcalled := List.foldlRecOn calls (Server.call r fd) hbegun fun x hx call _ => hx.call r call
  exact ⟨hcalled.change (f := fun c => { c with handlingReq := false }) (fun _ => rfl)
      (fun _ => rfl) fun _ _ _ hne => hne,
    forall_onConnection (fun _ _ _ _ => rfl) fun _ _ hne hfd => absurd hfd hne⟩

theorem Pausing.change (h : s.Pausing fd) {f : Connection → Connection}
    (hfd : ∀ c, (f c).fd = c.fd) (hsource : ∀ c, (f c).source = c.source)
    (hqueue : ∀ c, (f c).writeQueue = c.writeQueue)
    (hhandling : ∀ c, (f c).handlingReq = c.handlingReq) : (s.onConnection fd f).Pausing fd :=
  ⟨h.serving.change hfd hsource fun c _ _ hne => by rwa [hqueue] at hne,
    forall_onConnection (fun c hc hown _ => (hhandling c).trans (h.paused c hc hown))
      fun _ _ hne hfd => absurd hfd hne⟩

theorem Pausing.handleRequests (h : s.Pausing fd) (r : Rendering) (calls : ℕ → List IpcCall)
    (n : ℕ) : (s.handleRequests r fd calls n).Pausing fd :=
  List.foldlRecOn _ _ h fun _ hx i _ => hx.handleRequest r (calls i)

/-- Nobody's request is being handled. -/
structure Served (fd : ℕ) (s : Server) : Prop where
  serving : s.Serving (some fd)
  atRest : ∀ c ∈ s.connections, c.AtRest

theorem Pausing.flush (h : s.Pausing fd) (r : Rendering) :
    (s.ipcClientFlushEvents r fd).Served fd := by
  unfold ipcClientFlushEvents
  split
  · rename_i hnone
    refine ⟨h.serving, fun c hc => h.serving.atRest c hc fun hfd => ?_⟩
    have hne := List.find?_eq_none.mp hnone c hc
    exact hne (by simpa using (Option.some.inj hfd).symm)
  · rename_i c hfound
    have hwritten := List.foldlRecOn c.pendingEvents
      (fun s msg => s.post fd (Connection.ipcCtWriteMsg r (.event msg))) h fun x hx msg _ =>
        (⟨hx.serving.reply r (.event msg),
          forall_onConnection (fun c hc hown _ => hx.paused c hc hown)
            fun _ _ hne hfd => absurd hfd hne⟩ : Pausing fd _)
    have hcleared := hwritten.change (f := fun c => { c with pendingEvents := [] }) (fun _ => rfl)
      (fun _ => rfl) (fun _ => rfl) fun _ => rfl
    refine ⟨hcleared.serving, forall_onConnection (fun c hc hown => ?_) fun c hc hne => ?_⟩
    · exact ⟨hwritten.paused c hc hown, rfl⟩
    · exact hwritten.serving.atRest c hc fun hfd => hne (Option.some.inj hfd).symm

theorem Served.messageCallback (h : s.Served fd) (r : Rendering) (msg : Option Request)
    (calls : ℕ → List IpcCall) : (s.messageCallback r fd msg calls).Served fd := by
  have hpausing : s.Pausing fd := ⟨h.serving, fun c hc _ => (h.atRest c hc).1⟩
  apply Pausing.flush
  split
  · rename_i req c _
    split
    · split
      · have hheld := hpausing.change
          (f := fun c' => { c' with hold := 0, holdArr := c.holdArr ++ [req] }) (fun _ => rfl)
          (fun _ => rfl) (fun _ => rfl) fun _ => rfl
        exact (hheld.handleRequests r calls _).change (f := fun c => { c with holdArr := [] })
          (fun _ => rfl) (fun _ => rfl) (fun _ => rfl) fun _ => rfl
      · exact hpausing.change (fun _ => rfl) (fun _ => rfl) (fun _ => rfl) fun _ => rfl
    · exact hpausing.handleRequest r (calls 0)
  · exact hpausing

/-! ## A client's callback -/

theorem Served.readMessages (h : s.Served fd) (r : Rendering) (events : ℕ) (act : Activity) :
    (s.readMessages r fd events act).2.Served fd := by
  unfold Server.readMessages
  split
  · exact List.foldlRecOn act.messages _ h fun _ hx m _ => hx.messageCallback r m.1 m.2
  · exact h

/-- Writing empties the queue or leaves it to the polling that goes on. -/
theorem Served.ipcCtWrite (h : s.Served fd) (sends : List SendMsg) :
    (s.ipcCtWrite fd sends).2.Served fd := by
  unfold Server.ipcCtWrite
  split
  · exact h
  · rename_i c hfound
    obtain ⟨hc, rfl⟩ := findConnection_some hfound
    refine ⟨h.serving.change (fun _ => rfl) (fun _ => rfl) fun d hd hfd hne hempty => ?_,
      forall_onConnection (fun d hd _ => h.atRest d hd) fun d hd _ => h.atRest d hd⟩
    obtain rfl := h.serving.unique hc hd hfd.symm
    exact hne (by simp only [hempty, Swayclip.ipcCtWrite])

theorem del_current (fd : ℕ) (loop : EventLoop) :
    (loop.eventloopDel fd).2.current = loop.current := by
  rcases EventLoop.del_cases fd loop with ⟨_, _, ⟨_, heq⟩ | ⟨_, _, heq⟩⟩ | heq <;> rw [heq] <;> rfl

/-- The client goes; the others do not notice. -/
theorem Served.free (h : s.Served fd) : (s.ipcClientFree fd).Serving none := by
  have hleft : ∀ c ∈ (s.ipcClientFree fd).connections, c ∈ s.connections ∧ fd ≠ c.fd := by
    intro c hc
    obtain ⟨hmem, hne⟩ := List.mem_filter.mp hc
    exact ⟨hmem, fun hfd => of_decide_eq_true hne hfd.symm⟩
  refine ⟨(h.serving.sound.del fd).closeFd fd, h.serving.fds.sublist (List.filter_sublist.map _),
    fun c hc => ?_, (fun c hc hserved => by cases hserved),
    fun c hc _ => h.atRest c (hleft c hc).1, fun c hc _ => ?_⟩
  · obtain ⟨hmem, hne⟩ := hleft c hc
    have hstands := h.serving.stands c hmem
    exact (hstands.spared (EventLoop.spares_del hstands.finds hne)).spared
      (EventLoop.spares_close hne)
  · obtain ⟨hmem, hne⟩ := hleft c hc
    have hcurrent : (s.ipcClientFree fd).loop.current = s.loop.current := del_current fd s.loop
    rw [hcurrent]
    exact h.serving.notCurrent c hmem fun hfd => hne (Option.some.inj hfd)

/-- When nothing is left to be written, polling for output stops. -/
theorem Served.stopPolling (h : s.Served fd) (hempty : s.ipcCtHasPendingWrites fd = false) :
    (s.eventloopMod fd epollin).Served fd := by
  have hqueue : ∀ c ∈ s.connections, c.fd = fd → c.writeQueue = [] := by
    intro c hc hfd
    cases hfound : s.findConnection fd with
    | none => exact absurd hfd (by simpa using List.find?_eq_none.mp hfound c hc)
    | some d =>
      obtain ⟨hd, hfd'⟩ := findConnection_some hfound
      obtain rfl := h.serving.unique hd hc (hfd'.trans hfd.symm)
      simpa [ipcCtHasPendingWrites, hfound] using hempty
  exact ⟨(h.serving.mod _ (fun c hc hfd => h.serving.polled c hc (by rw [hfd]))
    fun c hc hfd hne => absurd (hqueue c hc hfd) hne).1, h.atRest⟩

theorem Served.clientCallback (h : s.Served fd) (r : Rendering) (events : ℕ) (act : Activity) :
    (s.clientCallback r fd events act).1 = false ∧ (s.clientCallback r fd events act).2.Served fd ∨
      (s.clientCallback r fd events act).2.Serving none := by
  unfold Server.clientCallback
  split
  · exact Or.inl ⟨rfl, h⟩
  · have hread := h.readMessages r events act
    generalize s.readMessages r fd events act = read at hread ⊢
    obtain ⟨ret, s₁⟩ := read
    have hwritten : (if ret && events &&& epollout ≠ 0 then s₁.ipcCtWrite fd act.sends
        else (ret, s₁)).2.Served fd := by
      split
      · exact hread.ipcCtWrite act.sends
      · exact hread
    dsimp only
    generalize (if ret && events &&& epollout ≠ 0 then s₁.ipcCtWrite fd act.sends
      else (ret, s₁)) = written at hwritten ⊢
    split
    · exact Or.inr hwritten.free
    · cases hpending : written.2.ipcCtHasPendingWrites fd with
      | true => exact Or.inl ⟨rfl, hwritten⟩
      | false =>
        have hstopped := hwritten.stopPolling hpending
        rw [if_neg Bool.false_ne_true]
        split
        · exact Or.inl ⟨rfl, hstopped⟩
        · exact Or.inr hstopped.free

theorem ret_current (remove : Bool) (loop : EventLoop) : (loop.ret remove).current = none := by
  unfold EventLoop.ret
  split
  · cases remove <;> rfl
  · rename_i hphase
    cases h : loop.phase with
    | idle | prepare => simp [EventLoop.current, h]
    | batch waiting current =>
      cases current with
      | none => simp [EventLoop.current, h]
      | some source => exact absurd h (hphase waiting source)

theorem Serving.ret (h : s.Serving none) (remove : Bool) :
    ({ s with loop := s.loop.ret remove } : Server).Serving none := by
  refine ⟨h.sound.ret remove, h.fds, fun c hc => ?_, (fun c hc hserved => by cases hserved),
    h.atRest, fun c _ _ => ?_⟩
  · refine (h.stands c hc).spared (EventLoop.spares_ret fun _ other hother => ?_)
    rintro rfl
    exact h.notCurrent c hc (Option.some_ne_none _).symm hother
  · rw [ret_current]
    exact (Option.some_ne_none _).symm

theorem Served.ret (h : s.Served fd) :
    ({ s with loop := s.loop.ret false } : Server).Serving none := by
  refine ⟨h.serving.sound.ret false, h.serving.fds, fun c hc => ?_,
    (fun c hc hserved => by cases hserved), fun c hc _ => h.atRest c hc, fun c _ _ => ?_⟩
  · exact (h.serving.stands c hc).spared (EventLoop.spares_ret fun h => by cases h)
  · rw [ret_current]
    exact (Option.some_ne_none _).symm

theorem phase_of_head {loop : EventLoop} {e : ℕ × ℕ} (hhead : loop.waiting.head? = some e)
    (hcurrent : loop.current = none) : ∃ rest, loop.phase = .batch (e :: rest) none := by
  cases hphase : loop.phase with
  | idle | prepare => simp [EventLoop.waiting, hphase] at hhead
  | batch waiting current =>
    simp only [EventLoop.waiting, EventLoop.current, hphase] at hhead hcurrent
    obtain ⟨rest, rfl⟩ := List.head?_eq_some_iff.mp hhead
    exact ⟨rest, by rw [hcurrent]⟩

/-- A client whose callback is entered is polled. -/
theorem Serving.dispatch (h : s.Serving none) {e : ℕ × ℕ} {rest : List (ℕ × ℕ)} {c : Connection}
    (hphase : s.loop.phase = .batch (e :: rest) none) (hc : c ∈ s.connections)
    (hsource : c.source = e.1) :
    ({ s with loop := s.loop.dispatch } : Server).Served c.fd := by
  have hdoomed : s.loop.Doomed c.source := by
    simp [EventLoop.Doomed, EventLoop.waiting, hphase, hsource]
  have hpolled := (h.stands c hc).polled_of_doomed hdoomed
  have hcurrent : s.loop.dispatch.current = some c.source := by
    simp [EventLoop.dispatch, hphase, EventLoop.current, EventLoop.note, hsource]
  refine ⟨⟨h.sound.dispatch, h.fds, fun d hd => ?_, fun d hd hserved => ?_,
    fun d hd _ => h.atRest d hd (Option.some_ne_none _).symm, fun d hd hserved hd' => ?_⟩,
    fun d hd => h.atRest d hd (Option.some_ne_none _).symm⟩
  · exact (h.stands d hd).spared EventLoop.spares_dispatch
  · obtain rfl := h.unique hc hd (Option.some.inj hserved)
    exact hpolled.spared EventLoop.spares_dispatch
  · rw [hcurrent] at hd'
    exact hserved (by rw [h.unique_source hc hd (Option.some.inj hd')])

theorem Serving.serveClient (h : s.Serving none) (r : Rendering) (act : Activity) :
    (s.serveClient r act).Serving none := by
  unfold Server.serveClient
  split
  · rename_i e hhead hcurrent
    obtain ⟨rest, hphase⟩ := phase_of_head hhead hcurrent
    split
    · exact h
    · rename_i c hfound
      have hsource : c.source = e.1 := by simpa using List.find?_some hfound
      have hserved := h.dispatch hphase (List.mem_of_find?_eq_some hfound) hsource
      rcases hserved.clientCallback r e.2 act with ⟨hstays, hserved'⟩ | hleft
      · have hret := hserved'.ret
        rwa [← hstays] at hret
      · exact hleft.ret _
  · exact h

/-! ## Steps -/

/-- Only entering a callback makes another source the current one. -/
theorem step_current (loop : EventLoop) (i : LoopInput) : ∀ x ∈ (loop.step i).current,
    x ∈ loop.current ∨ i = .dispatch ∧ ∃ e ∈ loop.waiting.head?, e.1 = x := by
  intro x hx
  cases i with
  | call call =>
    left
    cases call with
    | add fd priority events =>
      simp only [EventLoop.step, EventLoop.call] at hx
      rcases EventLoop.add_cases fd priority events loop with ⟨-, -, heq⟩ | heq <;>
        rw [heq] at hx <;> exact hx
    | del fd => exact del_current fd loop ▸ hx
    | mod fd events => exact mod_current fd events loop ▸ hx
    | stop | close => exact hx
    | «open» fd =>
      simp only [EventLoop.step, EventLoop.call, EventLoop.openFd] at hx
      split at hx <;> exact hx
  | run | wait | waitError =>
    left
    simp only [EventLoop.step] at hx
    split at hx
    · cases hx
    · exact hx
  | dispatch =>
    simp only [EventLoop.step, EventLoop.dispatch] at hx
    split at hx
    · rename_i e rest hphase
      exact Or.inr ⟨rfl, e, by simp [EventLoop.waiting, hphase], Option.some.inj hx⟩
    · exact Or.inl hx
  | ret remove => cases (ret_current remove loop).symm.trans hx
  | sweep =>
    left
    simp only [EventLoop.step, EventLoop.sweep] at hx
    split at hx
    · generalize (loop.deletedSources.foldl (fun s source => s.eventsourceDel source) loop).stop =
        stop at hx
      cases stop <;> cases hx
    · exact hx

theorem Serving.outside (h : s.Serving none) {i : LoopInput} (hi : s.Foreign i) :
    ({ s with loop := s.loop.step i } : Server).Serving none := by
  have hstands : ∀ c ∈ s.connections, c.Stands (s.loop.step i) := by
    intro c hc
    have hstands := h.stands c hc
    cases i with
    | call call =>
      cases call with
      | add fd priority events =>
        exact hstands.spared (EventLoop.spares_add h.sound (hi c hc).symm priority events)
      | del fd => exact hstands.spared (EventLoop.spares_del hstands.finds (hi c hc).symm)
      | mod fd events => exact hstands.spared (EventLoop.spares_mod (hi c hc).symm events)
      | stop => exact hstands.spared ⟨fun h => h, fun h => h, rfl, fun h => h,
          fun _ hx _ => Or.inl ⟨hx, rfl⟩, fun h => h⟩
      | «open» fd => exact hstands.spared (EventLoop.spares_open fd)
      | close fd => exact hstands.spared (EventLoop.spares_close (hi c hc).symm)
    | run =>
      simp only [EventLoop.step]
      split
      · rename_i hphase
        exact hstands.between (fun hbatch => hbatch.1 hphase) (Or.inr rfl) false
      · exact hstands
    | wait ready => exact hstands.wait h.sound ready
    | waitError =>
      simp only [EventLoop.step]
      split
      · rename_i hphase
        exact hstands.between (fun hbatch => hbatch.2 hphase) (Or.inl rfl) s.loop.stop
      · exact hstands
    | dispatch => exact hstands.spared EventLoop.spares_dispatch
    | ret remove =>
      exact hstands.spared
        (EventLoop.spares_ret fun _ source hsource => (hi source hsource c hc).symm)
    | sweep => exact hstands.sweep h.sound
  refine ⟨h.sound.step i, h.fds, hstands, (fun c hc hserved => by cases hserved), h.atRest,
    fun c hc _ hcurrent => ?_⟩
  rcases step_current s.loop i c.source hcurrent with hbefore | ⟨rfl, e, he, hentered⟩
  · exact h.notCurrent c hc (Option.some_ne_none _).symm hbefore
  · exact hi e he c hc hentered.symm

/-- A new client has the entry of its descriptor, and is not served before the iteration ends. -/
theorem Serving.accept (h : s.Serving none) (hcurrent : s.loop.current.isSome = true)
    (hclosed : s.loop.isOpen fd = false) (ok : Bool) :
    (s.acceptCallback fd ok).Serving none := by
  have hne : ∀ c ∈ s.connections, fd ≠ c.fd := by
    rintro c hc rfl
    exact Bool.false_ne_true (hclosed.symm.trans (h.stands c hc).finds.isOpen)
  have hopened : ({ s with loop := s.loop.openFd fd } : Server).Serving none :=
    h.outside (i := .call (.open fd)) trivial
  cases ok with
  | false =>
    simp only [acceptCallback, ipcAddClient]
    exact hopened.outside (i := .call (.close fd)) fun c hc => (hne c hc).symm
  | true =>
    have hentry : (s.loop.openFd fd).epoll fd = none := by
      simp only [EventLoop.openFd, hclosed]
      exact h.sound.closed fd hclosed
    have hopen : (s.loop.openFd fd).isOpen fd = true := by
      simp [EventLoop.openFd, hclosed]
    have hbatch : (s.loop.openFd fd).InBatch := by
      constructor <;> rintro hphase <;>
        simp [EventLoop.openFd, hclosed] at hphase <;>
        simp [EventLoop.current, hphase] at hcurrent
    obtain ⟨opened, hloop⟩ : ∃ opened, s.loop.openFd fd = opened := ⟨_, rfl⟩
    rw [hloop] at hentry hopen hopened hbatch
    have hadd : opened.eventloopAdd fd .normal epollin = (true, { opened with
        memory := Function.update opened.memory opened.used ⟨fd, epollin, .normal⟩
        used := opened.used + 1
        sources := opened.used :: opened.sources
        epoll := Function.update opened.epoll fd (some (opened.used, epollin)) }) := by
      simp [EventLoop.eventloopAdd, hopen, hentry]
    have hadded : s.acceptCallback fd true = ⟨(opened.eventloopAdd fd .normal epollin).2,
        ⟨fd, opened.used, [], 0, [], [], false, []⟩ :: s.connections⟩ := by
      simp [acceptCallback, ipcAddClient, hloop, hadd]
    have hold := hopened.outside (i := .call (.add fd .normal epollin)) fun c hc => (hne c hc).symm
    rw [hadded]
    refine ⟨hold.sound, List.nodup_cons.mpr ⟨?_, h.fds⟩, List.forall_mem_cons.mpr ⟨?_, hold.stands⟩,
      (fun c hc hserved => by cases hserved),
      List.forall_mem_cons.mpr ⟨fun _ => ⟨rfl, rfl⟩, hold.atRest⟩,
      List.forall_mem_cons.mpr ⟨fun _ hused => ?_, hold.notCurrent⟩⟩
    · intro hmem
      obtain ⟨c, hc, hfd⟩ := List.mem_map.mp hmem
      exact hne c hc hfd.symm
    · rw [hadd]
      refine ⟨⟨hopen, by simp [EventLoop.eventloopFind]⟩,
        Or.inr ⟨⟨fun hdoomed => ?_, Or.inr ⟨?_, ?_⟩⟩, rfl, rfl⟩⟩
      · exact (hopened.sound.doomed_used hdoomed).ne rfl
      · exact hbatch
      · simp
    · rw [hadd] at hused
      exact (hopened.sound.currentUsed opened.used hused).ne rfl

theorem Serving.step (h : s.Serving none) (r : Rendering) (i : ServerInput) :
    (s.step r i).Serving none := by
  cases i with
  | outside i =>
    simp only [Server.step]
    split
    · rename_i hi
      exact h.outside hi
    · exact h
  | event msg => exact h.event r msg
  | accept fd ok =>
    simp only [Server.step]
    split
    · rename_i hnew
      simp only [Bool.and_eq_true, Bool.not_eq_true'] at hnew
      exact h.accept hnew.1 hnew.2 ok
    · exact h
  | client act => exact h.serveClient r act

theorem init_serving : init.Serving none :=
  ⟨EventLoop.sound_init, List.nodup_nil, List.forall_mem_nil _, List.forall_mem_nil _,
    List.forall_mem_nil _, List.forall_mem_nil _⟩

end Serving

end Server

/-- In every run, a client for which something is queued is registered for output with the source
that serves it, and no event is held back from its queue. -/
theorem output_registered (r : Rendering) (inputs : List ServerInput) :
    let s := run (Server.step r) Server.init inputs
    ∀ c ∈ s.connections, c.pendingEvents = [] ∧ (c.writeQueue ≠ [] →
      s.loop.epoll c.fd = some (c.source, epollin ||| epollout)) := by
  intro s c hc
  have hserving : s.Serving none :=
    run_invariant (C := fun _ _ => True) (I := Server.Serving none) (fun s i hs _ => hs.step r i)
      Server.init_serving (Meets.of_mem fun _ _ _ => trivial)
  refine ⟨(hserving.atRest c hc (Option.some_ne_none _).symm).2, fun hqueued => ?_⟩
  rcases (hserving.stands c hc).standing with ⟨events, hpolls, hout⟩ | ⟨-, -, hempty⟩
  · rw [hpolls.entry, hout hqueued]
  · exact absurd hempty hqueued

/-- A client is accepted and asks for the current entry while its socket takes nothing. -/
example : (run (Server.step ⟨fun _ => some [48], fun _ => 0⟩) Server.init
      [.outside (.call (.open 3)), .outside (.call (.add 3 .normal epollin)), .outside .run,
        .outside (.wait ⟨[(3, epollin)], by decide⟩), .outside .dispatch, .accept 5 true,
        .outside (.ret false), .outside .sweep, .outside (.wait ⟨[(5, epollin)], by decide⟩),
        .client ⟨[(some .getCurrent, fun _ => [.send (.current 0)])], true, []⟩]).connections.map
      (fun c => c.writeQueue) = [[⟨[1, 1, 0, 0, 0, 48], 6, none⟩]] := by
  decide +kernel

end Swayclip
