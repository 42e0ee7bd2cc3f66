import Swayclip.Event.Sound

/-! # Reading from the compositor within the event loop

The loop asks the prepare source of the display to run before it waits, and the source of the
display when its descriptor is ready. Between them the two announce to libwayland that they are
going to read, and read or take it back. What libwayland keeps is the number of announcements,
the events that it has read and not delivered, and the requests that it has not sent.
-/

namespace Swayclip
open Library.Runs

/-- What libwayland keeps for a display. `misused` is set when an announcement is taken back that
has not been made. -/
structure WlDisplay where
  queued : ℕ
  unsent : ℕ
  readers : ℕ
  misused : Bool

namespace WlDisplay

/-- `wl_display_prepare_read`; it fails while events are queued. -/
def prepareRead (d : WlDisplay) : Bool × WlDisplay :=
  if d.queued = 0 then (true, { d with readers := d.readers + 1 }) else (false, d)

def endRead (d : WlDisplay) : WlDisplay :=
  if d.readers = 0 then { d with misused := true } else { d with readers := d.readers - 1 }

def cancelRead (d : WlDisplay) : WlDisplay := d.endRead

/-- `wl_display_read_events`; `events` is how many are read, if that does not fail. -/
def readEvents (events : Option ℕ) (d : WlDisplay) : Bool × WlDisplay :=
  match events with
  | none => (false, d.endRead)
  | some n => (true, { d.endRead with queued := d.endRead.queued + n })

/-- `wl_display_dispatch_pending` with the number that it returns, if that does not fail. All
queued events are delivered; `unsent` is how many requests wait after their handlers. -/
def dispatchPending (unsent : Option ℕ) (d : WlDisplay) : Option ℕ × WlDisplay :=
  match unsent with
  | none => (none, d)
  | some n => (some d.queued, { d with queued := 0, unsent := n })

end WlDisplay

/-- `struct wayland_ct` with the display, and the loop with its two sources: `source` is that of
the display, and `prepares` says whether the other one is still there. `prepared` is set while the
prepare sources of this iteration have been run. -/
structure WaylandCt where
  loop : EventLoop
  source : ℕ
  prepares : Bool
  prepared : Bool
  display : WlDisplay
  readPrepared : Bool
  nDispatched : ℕ

def epollIn (events : ℕ) : Bool := events.testBit 0

def epollGone (events : ℕ) : Bool := events.testBit 3 || events.testBit 4

/-- How a call of `wl_display_dispatch_pending` turns out, and what the handlers that it runs ask
of the loop. -/
structure Dispatched where
  unsent : Option ℕ
  calls : List LoopCall

inductive WaylandInput where
  | prepare (dispatched : List Dispatched) (flushed : Bool)
  | ready (read : Option ℕ) (dispatched : Dispatched)
  | other (i : LoopInput) (unsent : ℕ)

namespace WaylandCt

/-- The call is about the descriptor of the display; only `wayland_ct_uninit` makes such calls. -/
def concerns (fd : ℕ) : LoopCall → Bool
  | .del fd' | .mod fd' _ | .close fd' => fd' = fd
  | _ => false

def called (w : WaylandCt) (c : LoopCall) : WaylandCt :=
  if concerns (w.loop.memory w.source).fd c then w else { w with loop := w.loop.call c }

def dispatchPending (x : Dispatched) (w : WaylandCt) : Option ℕ × WaylandCt :=
  let w := x.calls.foldl called w
  match w.display.dispatchPending x.unsent with
  | (n, display) => (n, { w with display := display })

/-- The label `flush` of `display_prepare_callback`; `flushed` is the answer of
`wayland_ct_flush`. A callback that returns true has its source removed. -/
def prepareFlush (flushed : Bool) (w : WaylandCt) : WaylandCt :=
  if flushed then { w with display := { w.display with unsent := 0 } }
  else { w with loop := w.loop.eventloopStop, prepares := false }

/-- The announcement, if there is nothing queued, and what follows it. -/
def announce (flushed : Bool) (w : WaylandCt) : Option WaylandCt :=
  match w.display.prepareRead with
  | (true, display) =>
    some ({ w with display := display, readPrepared := true }.prepareFlush flushed)
  | (false, _) => none

/-- The loop of `display_prepare_callback` with the outcomes of `wl_display_dispatch_pending`;
`none` if it needs more of them. -/
def prepareRead (flushed : Bool) : List Dispatched → WaylandCt → Option WaylandCt
  | [], w => w.announce flushed
  | x :: dispatched, w =>
    match w.announce flushed with
    | some w => some w
    | none =>
      match w.dispatchPending x with
      | (none, w) => some { w with loop := w.loop.eventloopStop, prepares := false }
      | (some _, w) => prepareRead flushed dispatched w

def displayPrepareCallback (dispatched : List Dispatched) (flushed : Bool) (w : WaylandCt) :
    Option WaylandCt :=
  if w.readPrepared then some (w.prepareFlush flushed) else w.prepareRead flushed dispatched

def displayExit (w : WaylandCt) : Bool × WaylandCt :=
  (true, { w with loop := w.loop.eventloopStop })

def displayCallback (events : ℕ) (read : Option ℕ) (dispatched : Dispatched) (w : WaylandCt) :
    Bool × WaylandCt :=
  if epollIn events then
    match w.display.readEvents read with
    | (false, display) => { w with display := display, readPrepared := false }.displayExit
    | (true, display) =>
      match { w with display := display, readPrepared := false }.dispatchPending dispatched with
      | (none, w) => w.displayExit
      | (some n, w) => (false, { w with nDispatched := w.nDispatched + n })
  else if epollGone events then w.displayExit
  else (false, { w with display := w.display.cancelRead, readPrepared := false })

/-- A step of the loop that does not run one of the two sources of the display. The loop waits only
after the prepare sources have been run, and while they run it is only called by the handlers. -/
def others (i : LoopInput) (unsent : ℕ) (w : WaylandCt) : WaylandCt :=
  match i with
  | .call c =>
    if concerns (w.loop.memory w.source).fd c || w.loop.phase = .prepare then w
    else { w with
      loop := w.loop.call c
      display := { w.display with unsent := w.display.unsent + unsent } }
  | .run =>
    if w.loop.phase = .idle then { w with loop := w.loop.step .run, prepared := false } else w
  | .sweep =>
    if w.loop.phase = .batch [] none then { w with loop := w.loop.sweep, prepared := false } else w
  | .wait _ | .waitError => if w.prepared then { w with loop := w.loop.step i } else w
  | .dispatch =>
    if w.loop.waiting.head?.map Prod.fst = some w.source then w
    else { w with loop := w.loop.dispatch }
  | .ret remove => { w with loop := w.loop.ret remove }

def serveReady (read : Option ℕ) (dispatched : Dispatched) (w : WaylandCt) : WaylandCt :=
  match w.loop.phase with
  | .batch ((source, events) :: _) none =>
    if source = w.source then
      let (remove, w) := { w with loop := w.loop.dispatch }.displayCallback events read dispatched
      { w with loop := w.loop.ret remove }
    else w
  | _ => w

def servePrepares (dispatched : List Dispatched) (flushed : Bool) (w : WaylandCt) : WaylandCt :=
  if w.loop.phase = .prepare ∧ w.prepared = false then
    if w.prepares then
      match w.displayPrepareCallback dispatched flushed with
      | none => w
      | some w => { w with prepared := true }
    else { w with prepared := true }
  else w

def step (w : WaylandCt) : WaylandInput → WaylandCt
  | .prepare dispatched flushed => w.servePrepares dispatched flushed
  | .ready read dispatched => w.serveReady read dispatched
  | .other i unsent => w.others i unsent

/-- After `eventloop_init` and `wayland_ct_init`; the display has been used before. -/
def start (fd queued unsent : ℕ) : WaylandCt where
  loop := ((EventLoop.init.openFd fd).eventloopAdd fd .high 1).2
  source := EventLoop.init.used
  prepares := true
  prepared := false
  display := ⟨queued, unsent, 0, false⟩
  readPrepared := false
  nDispatched := 0

def AboutToWait (w : WaylandCt) : Prop := w.loop.phase = .prepare ∧ w.prepared = true

/-! ## What holds between two steps -/

/-- There is an announcement exactly while `read_prepared` is set, and nothing is queued then. The
loop comes to wait with an announcement, and with nothing to be sent. -/
structure Announced (w : WaylandCt) : Prop where
  fair : w.display.misused = false
  readers : w.display.readers = if w.readPrepared then 1 else 0
  empty : w.readPrepared = true → w.display.queued = 0
  waits : w.AboutToWait → w.readPrepared = true ∧ w.display.unsent = 0
  waiting : w.source ∈ w.loop.waiting.map Prod.fst → w.readPrepared = true

/-- The bookkeeping of the loop is in order, and so is that of the display unless the prepare
callback has given up. -/
structure Orderly (w : WaylandCt) : Prop where
  sound : w.loop.Sound
  announced : w.prepares = true → w.Announced

theorem Announced.congr {w w' : WaylandCt} (h : w.Announced) (hdisplay : w'.display = w.display)
    (hread : w'.readPrepared = w.readPrepared) (hsource : w'.source = w.source)
    (hwaits : w'.AboutToWait → w.AboutToWait)
    (hwaiting : ∀ e ∈ w'.loop.waiting, e ∈ w.loop.waiting) : w'.Announced := by
  refine ⟨?_, ?_, ?_, fun hw => ?_, fun hmem => ?_⟩
  · rw [hdisplay]
    exact h.fair
  · rw [hdisplay, hread]
    exact h.readers
  · rw [hdisplay, hread]
    exact h.empty
  · rw [hdisplay, hread]
    exact h.waits (hwaits hw)
  · obtain ⟨e, he, hsame⟩ := List.mem_map.mp hmem
    rw [hread]
    exact h.waiting (List.mem_map.mpr ⟨e, hwaiting e he, hsame.trans hsource⟩)

theorem sound_stop {loop : EventLoop} (h : loop.Sound) : loop.eventloopStop.Sound :=
  ⟨h.nodup, h.used, h.entry, h.closed, h.waitingUsed, h.currentUsed, h.batch⟩

/-! ## The handlers -/

theorem call_phase (c : LoopCall) (loop : EventLoop) : (loop.call c).phase = loop.phase := by
  cases c with
  | add fd priority events =>
    rcases EventLoop.add_cases fd priority events loop with ⟨-, -, heq⟩ | heq <;>
      rw [EventLoop.call, heq]
  | del fd =>
    rcases EventLoop.del_cases fd loop with ⟨source, -, ⟨-, heq⟩ | ⟨-, -, heq⟩⟩ | heq <;>
      rw [EventLoop.call, heq] <;> rfl
  | mod fd events =>
    rcases EventLoop.mod_cases fd events loop with ⟨source, -, -, -, heq⟩ | heq <;>
      rw [EventLoop.call, heq]
  | stop => rfl
  | «open» fd =>
    rw [EventLoop.call, EventLoop.openFd]
    split <;> rfl
  | close fd => rfl

theorem waiting_of_phase {loop loop' : EventLoop} (h : loop'.phase = loop.phase) :
    loop'.waiting = loop.waiting := by
  rw [EventLoop.waiting, h, EventLoop.waiting]

/-- What the handlers ask of the loop concerns other sources. -/
theorem called_all (calls : List LoopCall) {w : WaylandCt} (h : w.loop.Sound) :
    ∃ loop, calls.foldl called w = { w with loop := loop } ∧ loop.Sound ∧
      loop.phase = w.loop.phase := by
  induction calls generalizing w with
  | nil => exact ⟨w.loop, rfl, h, rfl⟩
  | cons c calls ih =>
    rw [List.foldl_cons, called]
    split
    · exact ih h
    · obtain ⟨loop, heq, hsound, hphase⟩ := ih (w := { w with loop := w.loop.call c }) (h.call c)
      exact ⟨loop, heq, hsound, hphase.trans (call_phase c w.loop)⟩

/-- Either nothing is queued any more, or the call fails and the display is as before. -/
theorem dispatchPending_cases (x : Dispatched) {w : WaylandCt} (h : w.loop.Sound) :
    ∃ loop, loop.Sound ∧ loop.phase = w.loop.phase ∧
      (w.dispatchPending x = (none, { w with loop := loop }) ∨
        ∃ unsent, w.dispatchPending x = (some w.display.queued, { w with
          loop := loop
          display := { w.display with queued := 0, unsent := unsent } })) := by
  obtain ⟨loop, heq, hsound, hphase⟩ := called_all x.calls h
  refine ⟨loop, hsound, hphase, ?_⟩
  simp only [dispatchPending, heq]
  cases x.unsent with
  | none => exact Or.inl rfl
  | some unsent => exact Or.inr ⟨unsent, rfl⟩

/-! ## The prepare source -/

theorem prepareFlush_orderly {w : WaylandCt} (h : w.loop.Sound) (hfair : w.display.misused = false)
    (hread : w.readPrepared = true) (hreaders : w.display.readers = 1)
    (hempty : w.display.queued = 0) (flushed : Bool) :
    { w.prepareFlush flushed with prepared := true }.Orderly := by
  cases flushed with
  | true =>
    refine ⟨h, fun _ => ⟨hfair, ?_, fun _ => hempty, fun _ => ⟨hread, rfl⟩, fun _ => hread⟩⟩
    exact hreaders.trans (if_pos hread).symm
  | false => exact ⟨sound_stop h, fun hprepares => by cases hprepares⟩

/-- Nothing is queued, so the announcement is made at once. -/
theorem prepareRead_empty {w : WaylandCt} (hempty : w.display.queued = 0) (flushed : Bool)
    (dispatched : List Dispatched) : w.prepareRead flushed dispatched =
      some ({ w with
        display := { w.display with readers := w.display.readers + 1 }
        readPrepared := true }.prepareFlush flushed) := by
  have hannounce : w.announce flushed = some ({ w with
      display := { w.display with readers := w.display.readers + 1 }
      readPrepared := true }.prepareFlush flushed) := by
    rw [announce, WlDisplay.prepareRead, if_pos hempty]
  cases dispatched with
  | nil => exact hannounce
  | cons unsent dispatched => rw [prepareRead, hannounce]

/-- Delivering what is queued either fails or makes room for the announcement. -/
theorem prepareRead_queued {w w' : WaylandCt} (h : w.loop.Sound) (hqueued : w.display.queued ≠ 0)
    {flushed : Bool} {dispatched : List Dispatched}
    (hw : w.prepareRead flushed dispatched = some w') :
    ∃ loop : EventLoop, loop.Sound ∧
      (w' = { w with loop := loop.eventloopStop, prepares := false } ∨
        ∃ unsent, w' = { w with
          loop := loop
          display := ⟨0, unsent, w.display.readers + 1, w.display.misused⟩
          readPrepared := true }.prepareFlush flushed) := by
  have hannounce : w.announce flushed = none := by
    rw [announce, WlDisplay.prepareRead, if_neg hqueued]
  cases dispatched with
  | nil =>
    rw [prepareRead, hannounce] at hw
    cases hw
  | cons x dispatched =>
    obtain ⟨loop, hsound, -, hfails | ⟨unsent, hdelivers⟩⟩ := dispatchPending_cases x h
    · rw [prepareRead, hannounce, hfails] at hw
      exact ⟨loop, hsound, Or.inl (Option.some.inj hw).symm⟩
    · rw [prepareRead, hannounce, hdelivers] at hw
      dsimp only at hw
      rw [prepareRead_empty rfl] at hw
      exact ⟨loop, hsound, Or.inr ⟨unsent, (Option.some.inj hw).symm⟩⟩

theorem servePrepares_orderly {w : WaylandCt} (h : w.Orderly) (dispatched : List Dispatched)
    (flushed : Bool) : (w.servePrepares dispatched flushed).Orderly := by
  unfold servePrepares
  split
  case isFalse => exact h
  case isTrue hphase =>
    split
    case isFalse hgone =>
      exact ⟨h.sound, fun hprepares => absurd hprepares hgone⟩
    case isTrue hprepares =>
      have hannounced := h.announced hprepares
      cases hw : w.displayPrepareCallback dispatched flushed with
      | none => exact h
      | some w' =>
        rw [displayPrepareCallback] at hw
        split at hw
        · rename_i hread
          obtain rfl := Option.some.inj hw
          exact prepareFlush_orderly h.sound hannounced.fair hread
            (hannounced.readers.trans (if_pos hread)) (hannounced.empty hread) flushed
        · rename_i hread
          have hreaders : w.display.readers + 1 = 1 := by
            rw [hannounced.readers, if_neg hread]
          by_cases hempty : w.display.queued = 0
          · rw [prepareRead_empty hempty] at hw
            obtain rfl := Option.some.inj hw
            exact prepareFlush_orderly (w := { w with
              display := { w.display with readers := w.display.readers + 1 }
              readPrepared := true }) h.sound hannounced.fair rfl hreaders hempty flushed
          · obtain ⟨loop, hsound, rfl | ⟨unsent, rfl⟩⟩ := prepareRead_queued h.sound hempty hw
            · exact ⟨sound_stop hsound, fun hprepares => by cases hprepares⟩
            · exact prepareFlush_orderly (w := { w with
                loop := loop
                display := ⟨0, unsent, w.display.readers + 1, w.display.misused⟩
                readPrepared := true }) hsound hannounced.fair rfl hreaders rfl flushed

/-! ## The source of the display -/

theorem endRead_announced {w : WaylandCt} (h : w.Announced) (hread : w.readPrepared = true) :
    w.display.endRead = { w.display with readers := 0 } := by
  have hone : w.display.readers = 1 := h.readers.trans (if_pos hread)
  rw [WlDisplay.endRead, if_neg (by omega), hone]

/-- What the callback of the display leaves: an announcement that is not to be used any more if
it only stops the loop, and none otherwise. -/
theorem displayCallback_announced {w : WaylandCt} (h : w.Announced) (hread : w.readPrepared = true)
    (hsound : w.loop.Sound) (hwaits : ¬ w.AboutToWait)
    (hwaiting : w.source ∉ w.loop.waiting.map Prod.fst) (events : ℕ) (read : Option ℕ)
    (dispatched : Dispatched) : (w.displayCallback events read dispatched).2.Announced := by
  have hend := endRead_announced h hread
  -- without an announcement it only matters that the counter is back at zero
  have hnone : ∀ (loop : EventLoop) (queued unsent n : ℕ), loop.phase = w.loop.phase →
      ({ w with
        loop := loop
        display := ⟨queued, unsent, 0, w.display.misused⟩
        readPrepared := false
        nDispatched := n } : WaylandCt).Announced := by
    intro loop queued unsent n hphase
    refine ⟨h.fair, rfl, fun hread => absurd hread Bool.false_ne_true, fun hwait => ?_,
      fun hmem => ?_⟩
    · exact absurd ⟨hphase ▸ hwait.1, hwait.2⟩ hwaits
    · exact absurd (waiting_of_phase hphase ▸ hmem) hwaiting
  unfold displayCallback
  split
  · cases read with
    | none =>
      rw [WlDisplay.readEvents, hend]
      exact hnone w.loop.eventloopStop _ _ _ rfl
    | some n =>
      rw [WlDisplay.readEvents, hend]
      obtain ⟨loop, -, hphase, hfails | ⟨unsent, hdelivers⟩⟩ := dispatchPending_cases dispatched
        (w := { w with
          display := ⟨w.display.queued + n, w.display.unsent, 0, w.display.misused⟩
          readPrepared := false }) hsound
      · simp only [hfails]
        exact hnone loop.eventloopStop _ _ _ hphase
      · simp only [hdelivers]
        exact hnone loop _ _ _ hphase
  · split
    · exact h.congr rfl rfl rfl (fun hwait => hwait) fun _ he => he
    · rw [WlDisplay.cancelRead, hend]
      exact hnone w.loop _ _ _ rfl

theorem displayCallback_kept {w : WaylandCt} (h : w.loop.Sound) (events : ℕ) (read : Option ℕ)
    (dispatched : Dispatched) : (w.displayCallback events read dispatched).2.loop.Sound ∧
      (w.displayCallback events read dispatched).2.prepares = w.prepares := by
  unfold displayCallback
  split
  · cases read with
    | none => exact ⟨sound_stop h, rfl⟩
    | some n =>
      rw [WlDisplay.readEvents]
      obtain ⟨loop, hsound, -, hfails | ⟨unsent, hdelivers⟩⟩ := dispatchPending_cases dispatched
        (w := { w with
          display := { w.display.endRead with queued := w.display.endRead.queued + n }
          readPrepared := false }) h
      · simp only [hfails]
        exact ⟨sound_stop hsound, rfl⟩
      · simp only [hdelivers, and_true]
        exact hsound
  · split
    · exact ⟨sound_stop h, rfl⟩
    · exact ⟨h, rfl⟩

theorem ret_phase (remove : Bool) (loop : EventLoop) :
    (loop.ret remove).waiting = loop.waiting ∧
      ((loop.ret remove).phase = .prepare → loop.phase = .prepare) := by
  unfold EventLoop.ret
  split
  · rename_i waiting source hphase
    rw [EventLoop.waiting.eq_def loop, hphase]
    cases remove with
    | false => exact ⟨rfl, fun h => by cases h⟩
    | true => exact ⟨rfl, fun h => by cases h⟩
  · exact ⟨rfl, id⟩

theorem Announced.ret {w : WaylandCt} (h : w.Announced) (remove : Bool) :
    { w with loop := w.loop.ret remove }.Announced := by
  obtain ⟨hwaiting, hphase⟩ := ret_phase remove w.loop
  refine h.congr rfl rfl rfl (fun hwait => ⟨hphase hwait.1, hwait.2⟩) fun e he => ?_
  rw [← hwaiting]
  exact he

theorem serveReady_orderly {w : WaylandCt} (h : w.Orderly) (read : Option ℕ)
    (dispatched : Dispatched) : (w.serveReady read dispatched).Orderly := by
  unfold serveReady
  split
  case h_2 => exact h
  case h_1 source events waiting hphase =>
    split
    case isFalse => exact h
    case isTrue hsource =>
      have hloop : w.loop.dispatch.phase = .batch waiting (some source) := by
        simp only [EventLoop.dispatch, hphase, EventLoop.note]
      have hwaiting : w.loop.waiting = (source, events) :: waiting := by
        rw [EventLoop.waiting, hphase]
      have hnext : w.loop.dispatch.waiting = waiting := by rw [EventLoop.waiting, hloop]
      obtain ⟨hsound, hkept⟩ := displayCallback_kept (w := { w with loop := w.loop.dispatch })
        h.sound.dispatch events read dispatched
      refine ⟨hsound.ret _, fun hprepares => ?_⟩
      have hannounced := h.announced (hkept ▸ hprepares)
      have hread : w.readPrepared = true :=
        hannounced.waiting (by rw [hwaiting, hsource]; exact List.mem_cons_self)
      -- the display is in the batch once
      have honce : w.source ∉ w.loop.dispatch.waiting.map Prod.fst := by
        have hnodup := h.sound.batch
        rw [hwaiting, List.map_cons, List.nodup_append] at hnodup
        rw [hnext, ← hsource]
        exact (List.nodup_cons.mp hnodup.2.1).1
      have hrunning : ¬ AboutToWait { w with loop := w.loop.dispatch } := by
        rintro ⟨hprepare, -⟩
        cases hloop.symm.trans hprepare
      refine (displayCallback_announced (w := { w with loop := w.loop.dispatch }) ?_ hread
        h.sound.dispatch hrunning honce events read dispatched).ret _
      refine hannounced.congr rfl rfl rfl (fun hwait => absurd hwait hrunning) fun e he => ?_
      rw [hwaiting]
      exact List.mem_cons_of_mem _ (hnext ▸ he)

/-! ## Everything else -/

theorem Announced.between {w : WaylandCt} (h : w.Announced) {loop : EventLoop}
    (hphase : loop.phase = .idle ∨ loop.phase = .prepare) :
    { w with loop := loop, prepared := false }.Announced := by
  have hwaiting : loop.waiting = [] := by
    rcases hphase with hphase | hphase <;> rw [EventLoop.waiting, hphase]
  refine h.congr rfl rfl rfl (fun hwait => ?_) fun e he => ?_
  · cases hwait.2
  · rw [hwaiting] at he
    cases he

theorem others_orderly {w : WaylandCt} (h : w.Orderly) (i : LoopInput) (unsent : ℕ) :
    (w.others i unsent).Orderly := by
  cases i with
  | call c =>
    simp only [others]
    split
    · exact h
    · rename_i hcall
      have hprepare : w.loop.phase ≠ .prepare := by
        rintro hprepare
        simp [hprepare] at hcall
      refine ⟨h.sound.call c, fun hprepares => ?_⟩
      have hannounced := h.announced hprepares
      have hphase := call_phase c w.loop
      refine ⟨hannounced.fair, hannounced.readers, hannounced.empty, fun hwait => ?_,
        fun hmem => hannounced.waiting (waiting_of_phase hphase ▸ hmem)⟩
      exact absurd (hphase.symm.trans hwait.1) hprepare
  | run =>
    simp only [others]
    split
    · rename_i hidle
      have hstep : w.loop.step .run = { w.loop with stop := false, phase := .prepare } := by
        simp only [EventLoop.step, hidle]
      exact ⟨h.sound.step .run, fun hprepares =>
        (h.announced hprepares).between (Or.inr (by rw [hstep]))⟩
    · exact h
  | wait ready =>
    simp only [others]
    split
    · rename_i hprepared
      refine ⟨h.sound.wait ready, fun hprepares => ?_⟩
      have hannounced := h.announced hprepares
      by_cases hphase : w.loop.phase = .prepare
      · obtain ⟨hread, hunsent⟩ := hannounced.waits ⟨hphase, hprepared⟩
        exact ⟨hannounced.fair, hannounced.readers, hannounced.empty, fun _ => ⟨hread, hunsent⟩,
          fun _ => hread⟩
      · have hsame : w.loop.step (.wait ready) = w.loop := by
          rw [EventLoop.step]
          split
          · contradiction
          · rfl
        rw [hsame]
        exact hannounced
    · exact h
  | waitError =>
    simp only [others]
    split
    · refine ⟨h.sound.step .waitError, fun hprepares => ?_⟩
      have hannounced := h.announced hprepares
      simp only [EventLoop.step]
      split
      · refine hannounced.congr rfl rfl rfl (fun hwait => ?_) fun e he => ?_
        · cases hwait.1
        · cases he
      · exact hannounced
    · exact h
  | dispatch =>
    simp only [others]
    split
    · exact h
    · refine ⟨h.sound.dispatch, fun hprepares => ?_⟩
      have hannounced := h.announced hprepares
      unfold EventLoop.dispatch
      split
      · rename_i e waiting hphase
        refine hannounced.congr rfl rfl rfl (fun hwait => ?_) fun e' he' => ?_
        · cases hwait.1
        · rw [EventLoop.waiting, hphase]
          exact List.mem_cons_of_mem _ he'
      · exact hannounced
  | ret remove => exact ⟨h.sound.ret remove, fun hprepares => (h.announced hprepares).ret remove⟩
  | sweep =>
    simp only [others]
    split
    · rename_i hdone
      refine ⟨h.sound.sweep, fun hprepares => (h.announced hprepares).between ?_⟩
      rw [EventLoop.sweep_eq h.sound.nodup hdone]
      cases w.loop.stop with
      | true => exact Or.inl rfl
      | false => exact Or.inr rfl
    · exact h

theorem step_orderly {w : WaylandCt} (h : w.Orderly) (i : WaylandInput) : (w.step i).Orderly := by
  cases i with
  | prepare dispatched flushed => exact servePrepares_orderly h dispatched flushed
  | ready read dispatched => exact serveReady_orderly h read dispatched
  | other i unsent => exact others_orderly h i unsent

theorem start_orderly (fd queued unsent : ℕ) : (start fd queued unsent).Orderly := by
  constructor
  · exact (EventLoop.sound_init.openFd fd).add fd .high 1
  · intro _
    have hphase : (start fd queued unsent).loop.phase = .idle :=
      (call_phase (.add fd .high 1) _).trans (call_phase (.open fd) EventLoop.init)
    refine ⟨rfl, rfl, fun hread => absurd hread Bool.false_ne_true, fun hwait => ?_,
      fun hmem => ?_⟩
    · cases hphase.symm.trans hwait.1
    · rw [EventLoop.waiting, hphase] at hmem
      cases hmem

theorem run_orderly (fd queued unsent : ℕ) (inputs : List WaylandInput) :
    (run step (start fd queued unsent) inputs).Orderly :=
  run_invariant (I := Orderly) (C := fun _ _ => True) (fun _ i h _ => step_orderly h i)
    (start_orderly fd queued unsent) (Meets.of_mem fun _ _ _ => trivial)

end WaylandCt

/-! ## What the daemon relies on -/

open WaylandCt

/-- As long as the prepare callback has not given up, reading and taking back are announced each
time, and there is never more than one announcement. -/
theorem reads_announced (fd queued unsent : ℕ) (inputs : List WaylandInput)
    (h : (run step (start fd queued unsent) inputs).prepares = true) :
    let w := run step (start fd queued unsent) inputs
    w.display.misused = false ∧ w.display.readers = if w.readPrepared then 1 else 0 :=
  have hannounced := (run_orderly fd queued unsent inputs).announced h
  ⟨hannounced.fair, hannounced.readers⟩

/-- The loop does not sleep on work: when it comes to wait, every event that was read has been
delivered, every request has been sent, and it is announced that the display will be read. -/
theorem sleeps_without_work (fd queued unsent : ℕ) (inputs : List WaylandInput)
    (h : (run step (start fd queued unsent) inputs).prepares = true)
    (hwait : (run step (start fd queued unsent) inputs).AboutToWait) :
    let w := run step (start fd queued unsent) inputs
    w.display.queued = 0 ∧ w.display.unsent = 0 ∧ w.display.readers = 1 := by
  have hannounced := (run_orderly fd queued unsent inputs).announced h
  obtain ⟨hread, hunsent⟩ := hannounced.waits hwait
  exact ⟨hannounced.empty hread, hunsent, hannounced.readers.trans (if_pos hread)⟩

/-- The display becomes readable, its events are delivered, and the loop comes around. The
handlers add a source and take it off again. -/
def readOnce : List WaylandInput :=
  [.other .run 0, .prepare [⟨some 2, [.open 7, .add 7 .normal 1]⟩] true,
    .other (.wait ⟨[(5, 1)], by decide⟩) 0, .ready (some 3) ⟨some 1, [.del 7]⟩,
    .other .sweep 0, .prepare [] true]

theorem readOnce_announced :
    let w := run step (start 5 1 1) readOnce
    w.display.misused = false ∧ w.display.readers = if w.readPrepared then 1 else 0 :=
  reads_announced 5 1 1 readOnce (by decide)

theorem readOnce_sleeps :
    let w := run step (start 5 1 1) readOnce
    w.display.queued = 0 ∧ w.display.unsent = 0 ∧ w.display.readers = 1 :=
  sleeps_without_work 5 1 1 readOnce (by decide) ⟨by decide, by decide⟩

end Swayclip
