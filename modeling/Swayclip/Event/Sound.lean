import Mathlib.Data.List.Nodup
import Mathlib.Data.Nat.Basic
import Mathlib.Order.Basic
import Swayclip.Event.Loop

/-! # What holds of the event loop in any run

Whatever the callbacks do, a source is on one list at most, and an entry of the interest set
belongs to a source on a list, tells its descriptor and events, and goes with the descriptor.
-/

namespace Swayclip
open Library.Runs

namespace EventLoop

/-- The source is on one of the two lists. -/
def Linked (s : EventLoop) (source : ℕ) : Prop :=
  source ∈ s.sources ∨ source ∈ s.deletedSources

/-- The bookkeeping of sources is in order. -/
structure Sound (s : EventLoop) : Prop where
  nodup : (s.sources ++ s.deletedSources).Nodup
  used : ∀ source, s.Linked source → source < s.used
  entry : ∀ fd source events, s.epoll fd = some (source, events) →
    s.Linked source ∧ (s.memory source).fd = fd ∧ (s.memory source).events = events
  closed : ∀ fd, s.isOpen fd = false → s.epoll fd = none
  waitingUsed : ∀ e ∈ s.waiting, e.1 < s.used
  currentUsed : ∀ source ∈ s.current, source < s.used
  batch : (s.current.toList ++ s.waiting.map Prod.fst).Nodup

@[simp] theorem note_eq (touches : List Touch) (s : EventLoop) :
    (s.note touches).sources = s.sources ∧ (s.note touches).deletedSources = s.deletedSources ∧
      (s.note touches).epoll = s.epoll ∧ (s.note touches).memory = s.memory ∧
      (s.note touches).used = s.used ∧ (s.note touches).phase = s.phase ∧
      (s.note touches).isOpen = s.isOpen ∧ (s.note touches).stop = s.stop :=
  ⟨rfl, rfl, rfl, rfl, rfl, rfl, rfl, rfl⟩

theorem Sound.note {s : EventLoop} (h : s.Sound) (touches : List Touch) :
    (s.note touches).Sound :=
  ⟨h.nodup, h.used, h.entry, h.closed, h.waitingUsed, h.currentUsed, h.batch⟩

theorem mem_unlink {s : EventLoop} {source other : ℕ} :
    (s.unlink source).Linked other ↔ s.Linked other ∧ other ≠ source := by
  simp only [Linked, unlink, List.mem_filter, decide_eq_true_eq]
  tauto

theorem nodup_unlink {s : EventLoop} (h : (s.sources ++ s.deletedSources).Nodup) (source : ℕ) :
    ((s.unlink source).sources ++ (s.unlink source).deletedSources).Nodup := by
  simp only [unlink, ← List.filter_append]
  exact h.filter _

theorem defer_linked {s : EventLoop} {source other : ℕ} :
    (s.defer source).Linked other ↔ s.Linked other ∨ other = source := by
  have : (s.unlink source).Linked other ↔ s.Linked other ∧ other ≠ source := mem_unlink
  simp only [Linked, defer, note_eq, unlink, List.mem_filter, List.mem_cons,
    decide_eq_true_eq] at this ⊢
  tauto

theorem Sound.defer {s : EventLoop} (h : s.Sound) {source : ℕ} (hused : source < s.used) :
    (s.defer source).Sound := by
  constructor
  · have hnodup := nodup_unlink h.nodup source
    have hnot : source ∉ (s.unlink source).sources ++ (s.unlink source).deletedSources := by
      simp [unlink]
    exact (List.nodup_middle).mpr (List.nodup_cons.mpr ⟨hnot, hnodup⟩)
  · intro other hother
    obtain hlinked | rfl := defer_linked.mp hother
    · exact h.used other hlinked
    · exact hused
  · intro fd other events he
    obtain ⟨hlinked, hfields⟩ := h.entry fd other events he
    exact ⟨defer_linked.mpr (Or.inl hlinked), hfields⟩
  · exact h.closed
  · exact h.waitingUsed
  · exact h.currentUsed
  · exact h.batch

theorem destroy_linked {s : EventLoop} {source other : ℕ} :
    (s.eventsourceDel source).Linked other ↔ s.Linked other ∧ other ≠ source :=
  mem_unlink (s := s.epollDel (s.memory source).fd)

theorem destroy_epoll (s : EventLoop) (source fd : ℕ) :
    (s.eventsourceDel source).epoll fd =
      if fd = (s.memory source).fd then none else s.epoll fd := by
  simp [eventsourceDel, unlink, epollDel, Function.update_apply]

theorem Sound.destroy {s : EventLoop} (h : s.Sound) (source : ℕ) :
    (s.eventsourceDel source).Sound := by
  constructor
  · exact nodup_unlink (s := s.epollDel (s.memory source).fd) h.nodup source
  · intro other hother
    exact h.used other (destroy_linked.mp hother).1
  · intro fd other events he
    rw [destroy_epoll] at he
    split at he
    · cases he
    · rename_i hne
      obtain ⟨hlinked, hfd, hevents⟩ := h.entry fd other events he
      refine ⟨destroy_linked.mpr ⟨hlinked, ?_⟩, hfd, hevents⟩
      rintro rfl
      exact hne hfd.symm
  · intro fd hclosed
    rw [destroy_epoll]
    split
    · rfl
    · exact h.closed fd hclosed
  · exact h.waitingUsed
  · exact h.currentUsed
  · exact h.batch

theorem find_some {s : EventLoop} {list : List ℕ} {fd source : ℕ}
    (h : s.eventloopFind list fd = some source) : source ∈ list ∧ (s.memory source).fd = fd :=
  ⟨List.mem_of_find?_eq_some h, by simpa using List.find?_some h⟩

/-- What `eventloop_del` finds is linked and has the descriptor. -/
theorem delTarget_some {s : EventLoop} {fd source : ℕ} (h : s.delTarget fd = some source) :
    s.Linked source ∧ (s.memory source).fd = fd := by
  unfold delTarget at h
  split at h
  · obtain h | ⟨-, h⟩ := Option.or_eq_some_iff.mp h
    · exact ⟨Or.inl (find_some h).1, (find_some h).2⟩
    · exact ⟨Or.inr (find_some h).1, (find_some h).2⟩
  · exact ⟨Or.inl (find_some h).1, (find_some h).2⟩

/-- A registered source is found before one that is to be deleted. -/
theorem delTarget_first {s : EventLoop} {fd source : ℕ} (h : s.delTarget fd = some source) :
    source ∈ s.sources ∨ ∀ other ∈ s.sources, (s.memory other).fd ≠ fd := by
  unfold delTarget at h
  split at h
  · obtain h | ⟨hnone, -⟩ := Option.or_eq_some_iff.mp h
    · exact Or.inl (find_some h).1
    · right
      intro other hother hfd
      exact List.find?_eq_none.mp hnone other hother (decide_eq_true hfd)
  · exact Or.inl (find_some h).1

/-- What `eventloop_add` does when it succeeds. -/
theorem add_cases (fd : ℕ) (priority : EventPriority) (events : ℕ) (s : EventLoop) :
    s.isOpen fd = true ∧ s.epoll fd = none ∧ (s.eventloopAdd fd priority events).2 = { s with
        memory := Function.update s.memory s.used ⟨fd, events, priority⟩
        used := s.used + 1
        sources := s.used :: s.sources
        epoll := Function.update s.epoll fd (some (s.used, events)) } ∨
      (s.eventloopAdd fd priority events).2 = s := by
  unfold eventloopAdd
  split
  · rename_i h
    rw [Bool.and_eq_true, Option.isNone_iff_eq_none] at h
    exact Or.inl ⟨h.1, h.2, rfl⟩
  · exact Or.inr rfl

/-- What `eventloop_mod` does when it changes anything. -/
theorem mod_cases (fd events : ℕ) (s : EventLoop) :
    (∃ source ∈ s.sources, (s.memory source).fd = fd ∧ s.epoll fd ≠ none ∧
        (s.eventloopMod fd events).2 = { s with
          memory := Function.update s.memory source { s.memory source with events := events }
          epoll := Function.update s.epoll fd (some (source, events)) }) ∨
      (s.eventloopMod fd events).2 = s := by
  unfold eventloopMod
  split
  · exact Or.inr rfl
  · rename_i source hfind
    obtain ⟨hmem, hfd⟩ := find_some hfind
    split
    · exact Or.inr rfl
    · split
      · exact Or.inr rfl
      · rename_i hentry
        rw [Option.isNone_iff_eq_none] at hentry
        exact Or.inl ⟨source, hmem, hfd, hentry, rfl⟩

/-- What `eventloop_del` does. -/
theorem del_cases (fd : ℕ) (s : EventLoop) :
    (∃ source, s.delTarget fd = some source ∧
        (s.stop = true ∧
            (s.eventloopDel fd).2 = (s.eventsourceDel source).note [.removed source] ∨
          s.stop = false ∧ source ∈ s.sources ∧
            (s.eventloopDel fd).2 = (s.defer source).note [.removed source])) ∨
      (s.eventloopDel fd).2 = s := by
  unfold eventloopDel
  cases htarget : s.delTarget fd with
  | none => exact Or.inr rfl
  | some source =>
    refine Or.inl ⟨source, rfl, ?_⟩
    cases hstop : s.stop with
    | true => exact Or.inl ⟨rfl, rfl⟩
    | false =>
      have hfind : s.eventloopFind s.sources fd = some source := by
        simpa [delTarget, hstop] using htarget
      exact Or.inr ⟨rfl, (find_some hfind).1, rfl⟩

theorem Sound.add {s : EventLoop} (h : s.Sound) (fd : ℕ) (priority : EventPriority) (events : ℕ) :
    (s.eventloopAdd fd priority events).2.Sound := by
  obtain ⟨hopen, -, heq⟩ | heq := add_cases fd priority events s
  · rw [heq]
    have hfresh : ¬s.Linked s.used := fun hlinked => absurd (h.used _ hlinked) (lt_irrefl _)
    constructor
    · rw [List.cons_append, List.nodup_cons, List.mem_append]
      exact ⟨hfresh, h.nodup⟩
    · intro source hsource
      obtain hsource | hsource := hsource
      · obtain rfl | hsource := List.mem_cons.mp hsource
        · exact Nat.lt_succ_self _
        · exact Nat.lt_succ_of_lt (h.used source (Or.inl hsource))
      · exact Nat.lt_succ_of_lt (h.used source (Or.inr hsource))
    · intro fd' source events' he
      by_cases hfd : fd' = fd
      · subst hfd
        obtain ⟨rfl, rfl⟩ : s.used = source ∧ events = events' := by simpa using he
        exact ⟨Or.inl List.mem_cons_self, by simp⟩
      · have he' : s.epoll fd' = some (source, events') := by
          simpa only [Function.update_of_ne hfd] using he
        obtain ⟨hlinked, hfields⟩ := h.entry fd' source events' he'
        have hne : source ≠ s.used := (h.used source hlinked).ne
        refine ⟨hlinked.imp (List.mem_cons_of_mem _) id, ?_⟩
        simpa only [Function.update_of_ne hne] using hfields
    · intro fd' hclosed
      have hne : fd' ≠ fd := by
        rintro rfl
        exact Bool.false_ne_true (hclosed.symm.trans hopen)
      simpa only [Function.update_of_ne hne] using h.closed fd' hclosed
    · intro e he
      exact Nat.lt_succ_of_lt (h.waitingUsed e he)
    · intro source hsource
      exact Nat.lt_succ_of_lt (h.currentUsed source hsource)
    · exact h.batch
  · rwa [heq]

theorem Sound.mod {s : EventLoop} (h : s.Sound) (fd events : ℕ) :
    (s.eventloopMod fd events).2.Sound := by
  obtain ⟨source, hmem, hfd, hentry, heq⟩ | heq := mod_cases fd events s
  · rw [heq]
    constructor
    · exact h.nodup
    · exact h.used
    · intro fd' other events' he
      by_cases hfd' : fd' = fd
      · subst hfd'
        obtain ⟨rfl, rfl⟩ : source = other ∧ events = events' := by simpa using he
        exact ⟨Or.inl hmem, by simpa using hfd⟩
      · have he' : s.epoll fd' = some (other, events') := by
          simpa only [Function.update_of_ne hfd'] using he
        obtain ⟨hlinked, hother, hevents⟩ := h.entry fd' other events' he'
        have hne : other ≠ source := by
          rintro rfl
          exact hfd' (hother.symm.trans hfd)
        refine ⟨hlinked, ?_⟩
        simpa only [Function.update_of_ne hne] using ⟨hother, hevents⟩
    · intro fd' hclosed
      have hne : fd' ≠ fd := by
        rintro rfl
        exact hentry (h.closed fd' hclosed)
      simpa only [Function.update_of_ne hne] using h.closed fd' hclosed
    · exact h.waitingUsed
    · exact h.currentUsed
    · exact h.batch
  · rwa [heq]

theorem Sound.del {s : EventLoop} (h : s.Sound) (fd : ℕ) : (s.eventloopDel fd).2.Sound := by
  obtain ⟨source, htarget, ⟨-, heq⟩ | ⟨-, -, heq⟩⟩ | heq := del_cases fd s
  · rw [heq]
    exact (h.destroy source).note _
  · rw [heq]
    exact (h.defer (h.used source (delTarget_some htarget).1)).note _
  · rwa [heq]

theorem Sound.openFd {s : EventLoop} (h : s.Sound) (fd : ℕ) : (s.openFd fd).Sound := by
  unfold EventLoop.openFd
  split
  · exact h
  · refine ⟨h.nodup, h.used, h.entry, ?_, h.waitingUsed, h.currentUsed, h.batch⟩
    intro fd' hclosed
    apply h.closed
    by_cases hfd : fd' = fd
    · simp [hfd] at hclosed
    · simpa only [Function.update_of_ne hfd] using hclosed

theorem Sound.closeFd {s : EventLoop} (h : s.Sound) (fd : ℕ) : (s.closeFd fd).Sound := by
  refine ⟨h.nodup, h.used, ?_, ?_, h.waitingUsed, h.currentUsed, h.batch⟩
  · intro fd' source events he
    by_cases hfd : fd' = fd
    · subst hfd
      simp [EventLoop.closeFd, epollDel] at he
    · apply h.entry fd' source events
      simpa [EventLoop.closeFd, epollDel, Function.update_of_ne hfd] using he
  · intro fd' hclosed
    simp only [EventLoop.closeFd, epollDel] at hclosed ⊢
    by_cases hfd : fd' = fd
    · simp [hfd]
    · rw [Function.update_of_ne hfd] at hclosed ⊢
      exact h.closed fd' hclosed

theorem Sound.call {s : EventLoop} (h : s.Sound) (c : LoopCall) : (s.call c).Sound := by
  cases c with
  | add fd priority events => exact h.add fd priority events
  | del fd => exact h.del fd
  | mod fd events => exact h.mod fd events
  | stop => exact ⟨h.nodup, h.used, h.entry, h.closed, h.waitingUsed, h.currentUsed, h.batch⟩
  | «open» fd => exact h.openFd fd
  | close fd => exact h.closeFd fd

/-- Every event that is reported stands for an entry. -/
theorem mem_reported {ready : Ready} {s : EventLoop} {e : ℕ × ℕ} (he : e ∈ s.reported ready) :
    ∃ fd events, s.epoll fd = some (e.1, events) := by
  obtain ⟨r, -, hr⟩ := List.mem_filterMap.mp he
  obtain ⟨entry, hentry, rfl⟩ := Option.map_eq_some_iff.mp hr
  exact ⟨r.1, entry.2, hentry⟩

/-- A source has one entry at most, so that no batch holds it twice. -/
theorem Sound.reported_nodup {s : EventLoop} (h : s.Sound) (ready : Ready) :
    ((s.reported ready).map Prod.fst).Nodup := by
  have hready : (ready.fds.take maxEvents).Pairwise fun a b => a.1 ≠ b.1 :=
    List.pairwise_map.mp (ready.nodup.sublist ((List.take_sublist _ _).map _))
  rw [List.Nodup, List.pairwise_map, reported, List.pairwise_filterMap]
  apply hready.imp
  intro a b hne e he e' he' hsame
  obtain ⟨entry, hentry, rfl⟩ := Option.map_eq_some_iff.mp he
  obtain ⟨entry', hentry', rfl⟩ := Option.map_eq_some_iff.mp he'
  have hfd := (h.entry a.1 entry.1 entry.2 hentry).2.1
  have hfd' := (h.entry b.1 entry'.1 entry'.2 hentry').2.1
  apply hne
  rw [← hfd, ← hfd']
  exact congrArg (fun source => (s.memory source).fd) hsame

theorem buckets_perm (evs : List (ℕ × ℕ)) (s : EventLoop) : (s.buckets evs).Perm evs := by
  have hperm := List.filter_append_perm (fun e => decide ((s.memory e.1).priority = .high)) evs
  simpa only [buckets, ne_eq, decide_not] using hperm

theorem Sound.wait {s : EventLoop} (h : s.Sound) (ready : Ready) :
    (s.step (.wait ready)).Sound := by
  simp only [step]
  split
  · refine ⟨h.nodup, h.used, h.entry, h.closed, ?_, ?_, ?_⟩
    · intro e he
      obtain ⟨fd, events, hentry⟩ := mem_reported ((buckets_perm _ s).mem_iff.mp he)
      exact h.used e.1 (h.entry fd e.1 events hentry).1
    · intro source hsource
      cases hsource
    · exact ((buckets_perm _ s).map _).nodup_iff.mpr (h.reported_nodup ready)
  · exact h

theorem Sound.dispatch {s : EventLoop} (h : s.Sound) : s.dispatch.Sound := by
  unfold EventLoop.dispatch
  split
  · rename_i e waiting hphase
    have hused : ∀ e' ∈ e :: waiting, e'.1 < s.used := by
      simpa only [EventLoop.waiting, hphase] using h.waitingUsed
    constructor
    · exact h.nodup
    · exact h.used
    · exact h.entry
    · exact h.closed
    · intro e' he'
      exact hused e' (List.mem_cons_of_mem _ he')
    · intro source hsource
      obtain rfl : e.1 = source := Option.some.inj hsource
      exact hused e List.mem_cons_self
    · have hbatch := h.batch
      simp only [EventLoop.waiting, current, hphase] at hbatch
      exact hbatch
  · exact h

/-- Leaving a callback without a request for removal. -/
theorem Sound.left {s : EventLoop} (h : s.Sound) {waiting : List (ℕ × ℕ)} {source : ℕ}
    (hphase : s.phase = .batch waiting (some source)) :
    ({ s with phase := .batch waiting none } : EventLoop).Sound := by
  refine ⟨h.nodup, h.used, h.entry, h.closed, ?_, ?_, ?_⟩
  · intro e he
    apply h.waitingUsed
    simpa only [EventLoop.waiting, hphase] using he
  · intro other hother
    cases hother
  · have hbatch := h.batch
    simp only [EventLoop.waiting, current, hphase] at hbatch
    exact (List.nodup_append.mp hbatch).2.1

/-- A source whose callback runs is in use and does not wait. -/
theorem Sound.running {s : EventLoop} (h : s.Sound) {waiting : List (ℕ × ℕ)} {source : ℕ}
    (hphase : s.phase = .batch waiting (some source)) :
    source < s.used ∧ source ∉ waiting.map Prod.fst := by
  constructor
  · apply h.currentUsed
    simp only [current, hphase, Option.mem_def]
  · have hbatch := h.batch
    simp only [EventLoop.waiting, current, hphase] at hbatch
    exact (List.nodup_cons.mp hbatch).1

theorem Sound.ret {s : EventLoop} (h : s.Sound) (remove : Bool) : (s.ret remove).Sound := by
  unfold EventLoop.ret
  split
  · rename_i waiting source hphase
    have hleft := h.left hphase
    cases remove with
    | false => exact hleft
    | true => exact (hleft.note _).defer (h.running hphase).1
  · exact h

/-- What destroying the sources of a list comes to. -/
theorem foldl_destroy (list : List ℕ) (s : EventLoop) :
    list.foldl (fun s source => s.eventsourceDel source) s = { s with
      sources := s.sources.filter (· ∉ list)
      deletedSources := s.deletedSources.filter (· ∉ list)
      epoll := fun fd =>
        bif list.any (fun source => (s.memory source).fd == fd) then none else s.epoll fd
      trace := s.trace ++ list.map .destroyed } := by
  induction list generalizing s with
  | nil => simp
  | cons source list ih =>
    rw [List.foldl_cons, ih]
    have hfilter (old : List ℕ) : (old.filter (· ≠ source)).filter (· ∉ list) =
        old.filter (· ∉ source :: list) := by
      rw [List.filter_filter]
      apply List.filter_congr
      intro other _
      simp only [List.mem_cons, not_or, Bool.decide_and, Bool.and_comm]
    have hepoll : (fun fd => bif list.any (fun other => (s.memory other).fd == fd) then none
        else (s.eventsourceDel source).epoll fd) = fun fd =>
          bif (source :: list).any (fun other => (s.memory other).fd == fd) then none
          else s.epoll fd := by
      funext fd
      rw [destroy_epoll]
      by_cases hfd : fd = (s.memory source).fd
      · subst hfd
        simp
      · have hbeq : ((s.memory source).fd == fd) = false := beq_false_of_ne (Ne.symm hfd)
        rw [if_neg hfd, List.any_cons, hbeq, Bool.false_or]
    simp only [eventsourceDel, note, unlink, epollDel] at hepoll ⊢
    rw [hfilter, hfilter, hepoll, List.map_cons, List.append_assoc, List.singleton_append]

/-- The end of an iteration takes the entries of all descriptors of deleted sources. -/
theorem sweep_eq {s : EventLoop} (h : (s.sources ++ s.deletedSources).Nodup)
    (hphase : s.phase = .batch [] none) : s.sweep = { s with
      deletedSources := []
      epoll := fun fd =>
        bif s.deletedSources.any (fun source => (s.memory source).fd == fd) then none
        else s.epoll fd
      trace := s.trace ++ s.deletedSources.map .destroyed
      phase := if s.stop then .idle else .prepare } := by
  have hsources : s.sources.filter (· ∉ s.deletedSources) = s.sources := by
    rw [List.filter_eq_self]
    intro source hsource
    exact decide_eq_true ((List.nodup_append.mp h).2.2 source hsource _ · rfl)
  have hdeleted : s.deletedSources.filter (· ∉ s.deletedSources) = [] := by
    rw [List.filter_eq_nil_iff]
    intro source hsource
    simp [hsource]
  simp only [sweep, hphase, foldl_destroy, hsources, hdeleted]

/-- After an iteration nothing waits. -/
theorem sweep_waiting {s : EventLoop} (hphase : s.phase = .batch [] none) :
    s.sweep.waiting = [] := by
  simp only [sweep, hphase, foldl_destroy, waiting]
  cases s.stop <;> rfl

theorem sweep_of_ne {s : EventLoop} (hphase : s.phase ≠ .batch [] none) : s.sweep = s := by
  unfold sweep
  split
  · contradiction
  · rfl

theorem Sound.destroyAll {s : EventLoop} (h : s.Sound) (list : List ℕ) :
    (list.foldl (fun s source => s.eventsourceDel source) s).Sound := by
  induction list generalizing s with
  | nil => exact h
  | cons source list ih => exact ih (h.destroy source)

/-- The bookkeeping does not depend on where the loop stands between batches. -/
theorem Sound.between {s : EventLoop} (h : s.Sound) {phase : Phase}
    (hphase : phase = .idle ∨ phase = .prepare) (stop : Bool) :
    ({ s with stop := stop, phase := phase } : EventLoop).Sound := by
  have hwaiting : ({ s with stop := stop, phase := phase } : EventLoop).waiting = [] := by
    obtain rfl | rfl := hphase <;> rfl
  have hcurrent : ({ s with stop := stop, phase := phase } : EventLoop).current = none := by
    obtain rfl | rfl := hphase <;> rfl
  refine ⟨h.nodup, h.used, h.entry, h.closed, ?_, ?_, ?_⟩
  · simp [hwaiting]
  · simp [hcurrent]
  · simp [hwaiting, hcurrent]

theorem Sound.sweep {s : EventLoop} (h : s.Sound) : s.sweep.Sound := by
  unfold EventLoop.sweep
  split
  · apply (h.destroyAll s.deletedSources).between
    split
    · exact Or.inl rfl
    · exact Or.inr rfl
  · exact h

/-- Every step of the loop keeps the bookkeeping in order. -/
theorem Sound.step {s : EventLoop} (h : s.Sound) (i : LoopInput) : (s.step i).Sound := by
  cases i with
  | call c => exact h.call c
  | run =>
    simp only [EventLoop.step]
    split
    · exact h.between (Or.inr rfl) false
    · exact h
  | wait ready => exact h.wait ready
  | waitError =>
    simp only [EventLoop.step]
    split
    · exact h.between (Or.inl rfl) s.stop
    · exact h
  | dispatch => exact h.dispatch
  | ret remove => exact h.ret remove
  | sweep => exact h.sweep

theorem sound_init : init.Sound := by
  constructor
  · exact List.nodup_nil
  · intro source hsource
    simp [Linked, init] at hsource
  · intro fd source events he
    cases he
  · exact fun _ _ => rfl
  · intro e he
    cases he
  · intro source hsource
    cases hsource
  · exact List.nodup_nil

end EventLoop

end Swayclip
