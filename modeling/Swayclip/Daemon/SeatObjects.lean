import Swayclip.Daemon.Reachability
import Swayclip.Wayland.Started

/-! # The seats of the daemon and their objects

The daemon's state keeps what matters of a seat for the clipboard, without the protocol objects.
Every session of the daemon is carried out by the functions that create and destroy these objects:
each of its events stands for a few of theirs, after which they show the same seats and account for
each object.
-/

namespace Swayclip
open Library.Custody Library.Runs

/-! ## What is seen of a seat -/

def WlSelection.view (sel : WlSelection) : Selection :=
  ⟨sel.enabled, sel.extDataOffer.isSome, sel.extDataSource.map Prod.snd, sel.nullTimerfd.isSome,
    sel.created⟩

def WlSeat.view (seat : WlSeat) : Seat :=
  ⟨seat.toCollected, seat.globalName, seat.enabled, seat.selRegular.view, seat.selPrimary.view⟩

namespace WlSelection
variable (sel : WlSelection) (device : Option (Handle .device)) (w : Wire)

theorem newSource_view (source : Option Source) :
    (newSource source w).1.map Prod.snd = source := by
  cases source <;> rfl

theorem selectionSet_view (result : SetResult) :
    (sel.selectionSet result device w).1.view = Swayclip.selectionSet result sel.view := by
  have hview := newSource_view w result.1
  have hnone := newSource_isNone result.1 w
  simp only [selectionSet, Swayclip.selectionSet]
  rw [hnone]
  split
  · rfl
  · simp only [view, hview, ← Option.not_isNone, hnone]

theorem nullTimerCallback_view (ok : Bool) (result : SetResult) :
    (sel.nullTimerCallback ok result device w).1.view =
      Swayclip.nullTimerCallback ok result sel.view := by
  have hoffer : sel.view.extDataOffer = sel.extDataOffer.isSome := rfl
  have hdrop : ∀ sel : WlSelection, ({ sel with nullTimerfd := none } : WlSelection).view =
      { sel.view with nullTimer := false } := fun _ => rfl
  simp only [nullTimerCallback, Swayclip.nullTimerCallback, hoffer, Option.not_isSome, hdrop]
  split
  · rw [selectionSet_view]
  · rfl

theorem selectionEvent_view (blocked canSet : Bool) (timer : TimerResult) (receives : ℕ)
    (offer : Option (Handle .offer)) :
    let event := sel.selectionEvent blocked canSet timer receives offer w
    (event.1, event.2.1.view) =
      Swayclip.selectionEvent blocked offer.isSome canSet (timer = .armed) sel.view := by
  have henabled : sel.view.enabled = sel.enabled := rfl
  have hsource : sel.view.extDataSource.isSome = sel.extDataSource.isSome := Option.isSome_map
  have htimer : sel.view.nullTimer = sel.nullTimerfd.isSome := rfl
  simp only [selectionEvent, Swayclip.selectionEvent, henabled, hsource]
  split
  · rfl
  · split
    · rfl
    · cases offer with
      | none =>
        simp only [Option.isSome_none, Bool.not_false, if_true, htimer]
        split
        · rfl
        · rename_i hunset
          have hnone : sel.nullTimerfd = none := by
            cases hfd : sel.nullTimerfd with
            | none => rfl
            | some fd => simp [hfd] at hunset
          cases timer <;> simp [armTimer, view, hnone]
      | some offer => rfl

theorem cancelled_view {source : Handle .source}
    (h : sel.extDataSource.map Prod.fst = some source) :
    (sel.cancelled source).view = dataSourceEventCancelled true sel.view := by
  rw [cancelled, if_pos h]
  rfl

end WlSelection

namespace WlSeat
variable (seat : WlSeat) (w : Wire)

theorem sel_view (type : SelectionType) : seat.view.sel type = (seat.sel type).view := by
  cases type <;> rfl

theorem setSel_view (type : SelectionType) (sel : WlSelection) :
    (seat.setSel type sel).view = seat.view.setSel type sel.view := by
  cases type <;> rfl

theorem setUnless_view (callback : SelectionName → SetResult) (ignore : Option SelectionName)
    (type : SelectionType) :
    (seat.setUnless callback ignore type w).1.view =
      seat.view.setUnless callback ignore type := by
  have henabled : (seat.view.sel type).enabled = (seat.sel type).enabled := by
    cases type <;> rfl
  have hname : seat.view.globalName = seat.globalName := rfl
  unfold setUnless Seat.setUnless
  rw [henabled, hname]
  split
  · rw [setSel_view, WlSelection.selectionSet_view, sel_view]
  · rfl

theorem seatSet_view (callback : SelectionName → SetResult) (ignore : Option SelectionName) :
    (seat.seatSet callback ignore w).1.view = Swayclip.seatSet callback ignore seat.view := by
  rw [Swayclip.seatSet, ← seat.setUnless_view w, ← setUnless_view]
  rfl

end WlSeat

/-! ## Seats that are shown -/

/-- The objects are in good order, and these seats are seen of them; for each seat so many offers
have been announced that no selection event has been about. -/
structure Shows (pending : ℕ → ℕ) (seats : List Seat) (wl : Wayland) : Prop where
  owned : wl.Owned
  sound : wl.Sound
  seats : wl.seats.map WlSeat.view = seats
  offers : ∀ n, pending n = (wl.offers.map Prod.fst).count n

section Shows
variable {pending : ℕ → ℕ} {seats : List Seat} {wl : Wayland} {n : ℕ}

theorem Shows.names (h : Shows pending seats wl) :
    seats.map Seat.globalName = wl.seats.map WlSeat.globalName := by
  rw [← h.seats, List.map_map]
  rfl

theorem Shows.nodup (h : Shows pending seats wl) : (seats.map Seat.globalName).Nodup :=
  h.names ▸ h.owned.named

theorem Shows.findSeat (h : Shows pending seats wl) (n : ℕ) :
    seats.find? (fun seat => seat.globalName = n) = (wl.findSeat n).map WlSeat.view := by
  rw [← h.seats, List.find?_map]
  rfl

/-- A seat that is enabled has its data device. -/
theorem Shows.started (h : Shows pending seats wl) (n : ℕ) :
    (seats.find? fun seat => seat.globalName = n).any Seat.enabled = wl.started n := by
  rw [h.findSeat, Wayland.started]
  cases hfind : wl.findSeat n with
  | none => rfl
  | some seat => exact (h.sound.steady seat (List.mem_of_find?_eq_some hfind)).agrees

/-- There is one seat of the name at most. -/
theorem eq_of_find {seats : List Seat} (h : (seats.map Seat.globalName).Nodup) {seat other : Seat}
    (hfind : seats.find? (fun seat => seat.globalName = n) = some seat) (hmem : other ∈ seats)
    (hname : other.globalName = n) : other = seat := by
  have hseat := List.find?_some hfind
  refine List.inj_on_of_nodup_map h hmem (List.mem_of_find?_eq_some hfind) ?_
  exact hname.trans (of_decide_eq_true hseat).symm

theorem onSeats_view (h : wl.seats.map WlSeat.view = seats) {f : WlSeat → Wire → WlSeat × Wire}
    {g : Seat → Seat} (hview : ∀ seat ∈ wl.seats, ∀ w, (f seat w).1.view = g seat.view) :
    (wl.onSeats f).seats.map WlSeat.view = seats.map g := by
  have hmap : ∀ (seats : List WlSeat) (w : Wire),
      (∀ seat ∈ seats, ∀ w, (f seat w).1.view = g seat.view) →
        (Wayland.mapSeats f seats w).1.map WlSeat.view = (seats.map WlSeat.view).map g := by
    intro seats
    induction seats with
    | nil => exact fun _ _ => rfl
    | cons seat seats ih =>
      intro w hall
      rw [List.forall_mem_cons] at hall
      simp only [Wayland.mapSeats, List.map_cons, hall.1, ih _ hall.2]
  rw [← h]
  exact hmap wl.seats wl.wire hview

theorem onSeat_view (h : wl.seats.map WlSeat.view = seats) {f : WlSeat → Wire → WlSeat × Wire}
    {g : Seat → Seat} (hview : ∀ seat ∈ wl.seats, seat.globalName = n →
      ∀ w, (f seat w).1.view = g seat.view) :
    (wl.onSeat n f).seats.map WlSeat.view =
      seats.map (fun seat => if seat.globalName = n then g seat else seat) := by
  refine onSeats_view h fun seat hmem w => ?_
  have hname : seat.view.globalName = seat.globalName := rfl
  rw [hname]
  unfold Wayland.only
  split
  · rename_i hseat
    exact hview seat hmem hseat w
  · rfl

end Shows

/-- These events of the objects, by which no seat has to stop, show these seats. -/
structure Shown (config : Config) (events : List WaylandEvent) (pending : ℕ → ℕ)
    (seats : List Seat) : Prop where
  settled : Meets (Wayland.step config) (Wayland.Settles config) Wayland.init events
  shows : Shows pending seats (run (Wayland.step config) Wayland.init events)

section Shown
variable {config : Config} {events : List WaylandEvent} {pending : ℕ → ℕ} {seats : List Seat}

/-- One more event of the objects. -/
theorem Shown.next (h : Shown config events pending seats) {pending' : ℕ → ℕ}
    {seats' : List Seat} {event : WaylandEvent}
    (hnext : ∀ wl, run (Wayland.step config) Wayland.init events = wl → Shows pending seats wl →
      Wayland.Settles config wl event ∧ wl.Timely event ∧
        (wl.step config event).seats.map WlSeat.view = seats' ∧
          ∀ n, pending' n = ((wl.step config event).offers.map Prod.fst).count n) :
    Shown config (events ++ [event]) pending' seats' := by
  obtain ⟨hsettled, htimely, hseats, hoffers⟩ := hnext _ rfl h.shows
  refine ⟨Meets.append.mpr ⟨h.settled, hsettled, trivial⟩, ?_⟩
  rw [run_append]
  exact ⟨h.shows.owned.step config htimely, h.shows.sound.step h.shows.owned.named hsettled, hseats,
    hoffers⟩

theorem Shown.init (config : Config) : Shown config [] (fun _ => 0) [] :=
  ⟨trivial, .init, ⟨fun _ hmem => absurd hmem List.not_mem_nil, rfl⟩, rfl, fun _ => rfl⟩

/-- `wayland_set`. -/
theorem Shown.set (h : Shown config events pending seats) (callback : SelectionName → SetResult)
    (ignore : Option SelectionName) :
    Shown config (events ++ [.set ignore callback]) pending
      (Swayclip.waylandSet callback ignore seats) := by
  refine h.next fun wl _ hwl => ⟨trivial, trivial, ?_, hwl.offers⟩
  refine onSeats_view hwl.seats fun seat _ w => ?_
  have henabled : seat.view.enabled = seat.enabled := rfl
  unfold Wayland.setOn
  rw [henabled]
  split
  · exact seat.seatSet_view w callback ignore
  · rfl

theorem Shown.nullTimer (h : Shown config events pending seats) (name : SelectionName) (ok : Bool)
    (result : SetResult) :
    Shown config (events ++ [.nullTimer name ok result]) pending
      (seats.map fun seat => if seat.globalName = name.1 then
      (if (seat.sel name.2).nullTimer then
        seat.setSel name.2 (Swayclip.nullTimerCallback ok result (seat.sel name.2)) else seat)
      else seat) := by
  refine h.next fun wl _ hwl => ⟨trivial, trivial, ?_, hwl.offers⟩
  refine onSeat_view hwl.seats fun seat _ _ w => ?_
  have htimer : (seat.view.sel name.2).nullTimer = (seat.sel name.2).nullTimerfd.isSome := by
    rw [seat.sel_view]
    rfl
  unfold Wayland.nullTimerOn
  rw [htimer]
  split
  · rw [seat.setSel_view, WlSelection.nullTimerCallback_view, seat.sel_view]
  · rfl

theorem Shown.dataOffer (h : Shown config events pending seats) {n : ℕ}
    (hstarted : (seats.find? fun seat => seat.globalName = n).any Seat.enabled) :
    Shown config (events ++ [.dataOffer n]) (Function.update pending n (pending n + 1))
      (seats.map fun seat => if seat.globalName = n then
        { seat with toCollected := dataDeviceEventDataOffer } else seat) := by
  refine h.next fun wl _ hwl => ⟨trivial, trivial, ?_⟩
  rw [hwl.started] at hstarted
  have hmade : Shows (Function.update pending n (pending n + 1)) seats { wl with
      offers := (n, (wl.wire.make .offer).1) :: wl.offers
      wire := (wl.wire.make .offer).2 } := by
    refine ⟨?_, ⟨hwl.sound.steady, hwl.sound.null⟩, hwl.seats, fun m => ?_⟩
    · refine ⟨?_, hwl.owned.named⟩
      have hmade := hwl.owned.owns.make .offer
      rwa [Wayland.held, ← add_assoc] at hmade
    · by_cases hm : m = n
      · subst hm
        simp [hwl.offers]
      · simp [hm, Ne.symm hm, hwl.offers]
  have hstep : wl.step config (.dataOffer n) = { wl with
      offers := (n, (wl.wire.make .offer).1) :: wl.offers
      wire := (wl.wire.make .offer).2 }.onSeat n
        (Wayland.collect fun _ => dataDeviceEventDataOffer) :=
    if_pos hstarted
  rw [hstep]
  exact ⟨onSeat_view hmade.seats fun _ _ _ _ => rfl, hmade.offers⟩

theorem Shown.offer (h : Shown config events pending seats) {n : ℕ}
    (hstarted : (seats.find? fun seat => seat.globalName = n).any Seat.enabled)
    (mimeType : CString) (toplevel : Option MimeFilter) :
    Shown config (events ++ [.offer n mimeType toplevel]) pending
      (seats.map fun seat => if seat.globalName = n then
      { seat with toCollected :=
        dataOfferEventOffer config.toMimeFilter toplevel mimeType seat.toCollected }
      else seat) := by
  refine h.next fun wl _ hwl => ⟨trivial, trivial, ?_⟩
  rw [hwl.started] at hstarted
  have hstep : wl.step config (.offer n mimeType toplevel) = wl.onSeat n
      (Wayland.collect (dataOfferEventOffer config.toMimeFilter toplevel mimeType)) :=
    if_pos hstarted
  rw [hstep]
  exact ⟨onSeat_view hwl.seats fun _ _ _ _ => rfl, hwl.offers⟩

/-- What a selection event makes of its seat. -/
def selectionSeat (type : SelectionType) (offer canSet timerOk : Bool) (seat : Seat) : Seat :=
  match selectionEvent seat.blocked offer canSet timerOk (seat.sel type) with
  | (deliver, sel) =>
    if deliver then seatClearMimeTypes (seat.setSel type sel) else seat.setSel type sel

theorem selectionOn_view (type : SelectionType) (offer : Option (Handle .offer)) (canSet : Bool)
    (timer : TimerResult) (receives : ℕ) (seat : WlSeat) (w : Wire) :
    (Wayland.selectionOn type offer canSet timer receives seat w).1.view =
      selectionSeat type offer.isSome canSet (timer = .armed) seat.view := by
  have hevent := (seat.sel type).selectionEvent_view w seat.blocked canSet timer receives offer
  have hblocked : seat.view.blocked = seat.blocked := rfl
  simp only [Wayland.selectionOn, selectionSeat, hblocked, seat.sel_view, ← hevent]
  split
  · cases type <;> rfl
  · exact seat.setSel_view type _

def timerResult (timerOk : Bool) : TimerResult := if timerOk then .armed else .notArmed

theorem selectionOn_timer (type : SelectionType) (offer : Option (Handle .offer))
    (canSet timerOk : Bool) (receives : ℕ) (seat : WlSeat) (w : Wire) :
    (Wayland.selectionOn type offer canSet (timerResult timerOk) receives seat w).1.view =
      selectionSeat type offer.isSome canSet timerOk seat.view := by
  rw [selectionOn_view]
  cases timerOk <;> rfl

/-- A NULL selection. -/
theorem Shown.selection_none (h : Shown config events pending seats) {name : SelectionName}
    (hstarted : (seats.find? fun seat => seat.globalName = name.1).any Seat.enabled)
    (canSet timerOk : Bool) (receives : ℕ) :
    Shown config (events ++ [.selection name none canSet (timerResult timerOk) receives]) pending
      (seats.map fun seat => if seat.globalName = name.1 then
        selectionSeat name.2 false canSet timerOk seat else seat) := by
  refine h.next fun wl _ hwl => ⟨trivial, trivial, ?_⟩
  rw [hwl.started] at hstarted
  have hstep : wl.step config (.selection name none canSet (timerResult timerOk) receives) =
      wl.onSeat name.1 (Wayland.selectionOn name.2 none canSet (timerResult timerOk) receives) :=
    if_pos ⟨hstarted, fun _ h => absurd h (Option.not_mem_none _)⟩
  rw [hstep]
  refine ⟨onSeat_view hwl.seats fun seat _ _ w => ?_, hwl.offers⟩
  exact selectionOn_timer name.2 none canSet timerOk receives seat w

/-- An offer that was announced is selected. -/
theorem Shown.selection_some (h : Shown config events pending seats) {name : SelectionName}
    (hstarted : (seats.find? fun seat => seat.globalName = name.1).any Seat.enabled)
    (hpending : 0 < pending name.1) (canSet timerOk : Bool) (receives : ℕ) :
    ∃ o, Shown config (events ++ [.selection name (some o) canSet (timerResult timerOk) receives])
      (Function.update pending name.1 (pending name.1 - 1))
      (seats.map fun seat => if seat.globalName = name.1 then
        selectionSeat name.2 true canSet timerOk seat else seat) := by
  rw [h.shows.offers, List.count_pos_iff] at hpending
  obtain ⟨⟨m, o⟩, hmem, hm⟩ := List.mem_map.mp hpending
  obtain rfl : m = name.1 := hm
  refine ⟨o, h.next ?_⟩
  rintro wl rfl hwl
  rw [hwl.started] at hstarted
  generalize run (Wayland.step config) Wayland.init events = wl at hwl hmem hstarted ⊢
  refine ⟨trivial, trivial, ?_⟩
  have hstep : wl.step config (.selection name (some o) canSet (timerResult timerOk) receives) =
      { wl with offers := wl.offers.erase (name.1, o) }.onSeat name.1
        (Wayland.selectionOn name.2 (some o) canSet (timerResult timerOk) receives) := by
    refine if_pos ⟨hstarted, fun i hi => ?_⟩
    rwa [← Option.some.inj hi]
  rw [hstep]
  refine ⟨onSeat_view hwl.seats fun seat _ _ w => ?_, fun n => ?_⟩
  · exact selectionOn_timer name.2 (some o) canSet timerOk receives seat w
  · change _ = ((wl.offers.erase (name.1, o)).map Prod.fst).count n
    have hperm := ((List.perm_cons_erase hmem).map Prod.fst).count_eq n
    rw [← hwl.offers n, List.map_cons, List.count_cons] at hperm
    by_cases hn : n = name.1
    · subst hn
      rw [Function.update_self, hperm]
      simp
    · rw [Function.update_of_ne hn, hperm]
      simp [Ne.symm hn]

/-- A seat before it has a name. -/
def addedSeat (n : ℕ) : Seat :=
  ⟨⟨[], false, false⟩, n, false, ⟨false, false, none, false, 0⟩, ⟨false, false, none, false, 0⟩⟩

/-- What the first name makes of a seat. -/
theorem nameEvent_view {seat : WlSeat} {n : ℕ} (hview : seat.view = addedSeat n)
    (hagrees : seat.Agrees) (name : CString) (callback : SelectionName → SetResult) (w : Wire) :
    (seat.nameEvent config name callback w).1.view =
      if (newSeat config n name).enabled then
        Swayclip.seatSet callback none (newSeat config n name) else newSeat config n name := by
  have hregular : seat.selRegular.view = ⟨false, false, none, false, 0⟩ :=
    congrArg Seat.selRegular hview
  have hprimary : seat.selPrimary.view = ⟨false, false, none, false, 0⟩ :=
    congrArg Seat.selPrimary hview
  have henabled : seat.enabled = false := congrArg Seat.enabled hview
  have hdevice : seat.extDataDevice.isNone := by
    rw [← Option.not_isSome, ← hagrees, henabled]
    rfl
  have hflags : seatIsConfigured config name seat.selRegular.enabled seat.selPrimary.enabled =
      waylandSeatIsConfigured config name := by
    rw [show seat.selRegular.enabled = false from congrArg Selection.enabled hregular,
      show seat.selPrimary.enabled = false from congrArg Selection.enabled hprimary]
    exact seatIsConfigured_fresh config name
  have hnew : ∀ device : Option (Handle .device),
      { seat.renamed name (waylandSeatIsConfigured config name).2.1
          (waylandSeatIsConfigured config name).2.2 with
        extDataDevice := device
        enabled := (waylandSeatIsConfigured config name).1 }.view = newSeat config n name := by
    intro device
    have hcollected : seat.toCollected = ⟨[], false, false⟩ := congrArg Seat.toCollected hview
    have hname : seat.globalName = n := congrArg Seat.globalName hview
    simp only [WlSeat.view, WlSeat.renamed, WlSelection.view, Selection.mk.injEq]
      at hregular hprimary ⊢
    simp only [newSeat, hcollected, hname, hregular.2, hprimary.2]
  have hstate : (newSeat config n name).enabled = (waylandSeatIsConfigured config name).1 := rfl
  simp only [WlSeat.nameEvent, hflags, hstate]
  by_cases hconfigured : (waylandSeatIsConfigured config name).1 = true
  · rw [if_pos hconfigured, if_pos hconfigured, WlSeat.seatStart,
      if_neg (by simpa [WlSeat.renamed] using hdevice)]
    dsimp only
    rw [WlSeat.seatSet_view, ← hnew, hconfigured]
  · rw [if_neg hconfigured, if_neg hconfigured, WlSeat.seatStop,
      if_pos (by exact hdevice), ← hnew seat.extDataDevice]
    have hoff : (waylandSeatIsConfigured config name).1 = seat.enabled := by
      rw [henabled]
      simpa using hconfigured
    rw [hoff]
    rfl

/-- A new seat is announced and then named. -/
theorem Shown.addSeat (h : Shown config events pending seats) {n : ℕ}
    (hfresh : seats.find? (fun seat => seat.globalName = n) = none) (name : CString)
    (callback : SelectionName → SetResult) :
    Shown config (events ++ [.global n, .seatName n name callback]) pending
      ((if (newSeat config n name).enabled then
        Swayclip.seatSet callback none (newSeat config n name) else newSeat config n name) ::
          seats) := by
  have hadded : Shown config (events ++ [.global n]) pending (addedSeat n :: seats) := by
    refine h.next fun wl _ hwl => ⟨trivial, trivial, ?_⟩
    have hnone : wl.findSeat n = none := by
      have hfind := hwl.findSeat n
      rw [hfresh] at hfind
      exact Option.map_eq_none_iff.mp hfind.symm
    have hstep : wl.step config (.global n) = { wl with
        seats := ⟨⟨[], false, false⟩, n, false, (wl.wire.make .seat).1, none, none, .init, .init⟩
          :: wl.seats
        wire := (wl.wire.make .seat).2 } := if_neg (by simp [hnone])
    rw [hstep]
    exact ⟨congrArg (addedSeat n :: ·) hwl.seats, hwl.offers⟩
  rw [List.append_cons]
  refine hadded.next fun wl _ hwl => ⟨?_, trivial, ?_, hwl.offers⟩
  all_goals
    have honly : ∀ seat ∈ wl.seats, seat.globalName = n → seat.view = addedSeat n := by
      intro seat hmem hname
      refine eq_of_find hwl.nodup (by simp [addedSeat]) ?_ hname
      rw [← hwl.seats]
      exact List.mem_map_of_mem hmem
  · intro seat hmem hname hdevice
    have henabled := (hwl.sound.steady seat hmem).agrees.trans hdevice
    rw [show seat.enabled = false from congrArg Seat.enabled (honly seat hmem hname)] at henabled
    exact absurd henabled Bool.false_ne_true
  · have hview := onSeat_view hwl.seats (f := WlSeat.nameEvent config name callback) (n := n)
      (g := fun _ => if (newSeat config n name).enabled then
        Swayclip.seatSet callback none (newSeat config n name) else newSeat config n name)
      fun seat hmem hname w => nameEvent_view (honly seat hmem hname)
        (hwl.sound.steady seat hmem).agrees name callback w
    refine hview.trans ?_
    rw [List.map_cons, if_pos (show (addedSeat n).globalName = n from rfl)]
    refine congrArg _ ((List.map_congr_left fun seat hmem => if_neg fun hname => ?_).trans
      (List.map_id' seats))
    exact List.find?_eq_none.mp hfresh seat hmem (decide_eq_true hname)

theorem Shown.removeSeat (h : Shown config events pending seats) (n : ℕ) :
    Shown config (events ++ [.globalRemove n]) pending
      (seats.filter fun seat => seat.globalName ≠ n) := by
  refine h.next fun wl _ hwl => ⟨trivial, trivial, ?_⟩
  have herase : ∀ seats : List WlSeat, Wayland.Named seats →
      (seats.eraseP fun seat => seat.globalName = n).map WlSeat.view =
        (seats.map WlSeat.view).filter fun seat => seat.globalName ≠ n := by
    intro seats
    induction seats with
    | nil => exact fun _ => rfl
    | cons seat seats ih =>
      intro hnamed
      obtain ⟨hnot, hnamed⟩ := List.nodup_cons.mp hnamed
      by_cases hname : seat.globalName = n
      · have hrest : ∀ other ∈ seats.map WlSeat.view, decide (other.globalName ≠ n) = true := by
          intro other hmem
          obtain ⟨other, hother, rfl⟩ := List.mem_map.mp hmem
          refine decide_eq_true fun heq => hnot ?_
          exact List.mem_map.mpr ⟨other, hother, heq.trans hname.symm⟩
        rw [List.eraseP_cons_of_pos (by simpa using hname), List.map_cons,
          List.filter_cons_of_neg (by simp [WlSeat.view, hname]),
          List.filter_eq_self.mpr hrest]
      · rw [List.eraseP_cons_of_neg (by simpa using hname), List.map_cons, List.map_cons,
          List.filter_cons_of_pos (by simp [WlSeat.view, hname]), ih hnamed]
  change (wl.delSeat n).seats.map _ = _ ∧ ∀ m, _ = ((wl.delSeat n).offers.map _).count m
  rw [← hwl.seats, ← herase wl.seats hwl.owned.named, Wayland.delSeat]
  cases hfind : wl.findSeat n with
  | none =>
    rw [List.eraseP_of_forall_not fun seat hmem => List.find?_eq_none.mp hfind seat hmem]
    exact ⟨rfl, hwl.offers⟩
  | some seat => exact ⟨rfl, hwl.offers⟩

theorem source_held {sel : WlSelection} {source : Handle .source}
    (h : sel.extDataSource.map Prod.fst = some source) : source.proxy ∈ sel.held := by
  rw [WlSelection.held, h]
  simp

theorem source_held_seat {seat : WlSeat} {type : SelectionType} {source : Handle .source}
    (h : (seat.sel type).extDataSource.map Prod.fst = some source) :
    source.proxy ∈ seat.held := by
  rw [seat.held_eq type]
  exact Multiset.mem_add.mpr (Or.inl (source_held h))

theorem mem_seatsHeld {seat : WlSeat} {seats : List WlSeat} (h : seat ∈ seats) {o : Proxy}
    (ho : o ∈ seat.held) : o ∈ Wayland.seatsHeld seats := by
  induction seats with
  | nil => exact absurd h List.not_mem_nil
  | cons first seats ih =>
    rw [Wayland.seatsHeld_cons, Multiset.mem_add]
    rcases List.mem_cons.mp h with rfl | h
    · exact Or.inl ho
    · exact Or.inr (ih h)

/-- A source is held once, so that only this selection loses it. -/
theorem cancelIn_view {seats : List WlSeat} (hheld : (Wayland.seatsHeld seats).Nodup)
    (hnamed : Wayland.Named seats) {seat : WlSeat} (hmem : seat ∈ seats) {type : SelectionType}
    {source : Handle .source} (h : (seat.sel type).extDataSource.map Prod.fst = some source) :
    (Wayland.cancelIn source seats).map WlSeat.view = (seats.map WlSeat.view).map fun other =>
      if other.globalName = seat.globalName then
        other.setSel type (dataSourceEventCancelled true (other.sel type)) else other := by
  induction seats with
  | nil => exact absurd hmem List.not_mem_nil
  | cons first seats ih =>
    obtain ⟨hnot, hnamed⟩ := List.nodup_cons.mp hnamed
    rw [Wayland.seatsHeld_cons, Multiset.nodup_add] at hheld
    obtain ⟨hfirst, hseats, hdisjoint⟩ := hheld
    rw [List.map_cons, List.map_cons]
    rcases List.mem_cons.mp hmem with rfl | hmem
    · have hrest : (seats.map WlSeat.view).map (fun other =>
          if other.globalName = seat.globalName then
            other.setSel type (dataSourceEventCancelled true (other.sel type)) else other) =
          seats.map WlSeat.view := by
        refine (List.map_congr_left fun other hother => if_neg fun heq => hnot ?_).trans
          (List.map_id' _)
        obtain ⟨other', hother', rfl⟩ := List.mem_map.mp hother
        exact List.mem_map.mpr ⟨other', hother', heq⟩
      rw [hrest, if_pos (show seat.view.globalName = seat.globalName from rfl), seat.sel_view]
      have hview := (seat.sel type).cancelled_view h
      cases type with
      | regular =>
        have hregular : seat.selRegular.extDataSource.map Prod.fst = some source := h
        rw [Wayland.cancelIn, if_pos hregular, List.map_cons, ← hview]
        rfl
      | primary =>
        have hprimary : seat.selPrimary.extDataSource.map Prod.fst = some source := h
        have hregular : seat.selRegular.extDataSource.map Prod.fst ≠ some source := by
          intro hregular
          rw [seat.held_eq .regular, Multiset.nodup_add] at hfirst
          refine Multiset.disjoint_left.mp hfirst.2.2 (source_held hregular) ?_
          exact Multiset.mem_add.mpr (Or.inr (source_held hprimary))
        rw [Wayland.cancelIn, if_neg hregular, if_pos hprimary, List.map_cons, ← hview]
        rfl
    · have hother : ∀ t, (first.sel t).extDataSource.map Prod.fst ≠ some source := by
        intro t hsource
        exact Multiset.disjoint_left.mp hdisjoint (source_held_seat hsource)
          (mem_seatsHeld hmem (source_held_seat h))
      have hname : first.view.globalName ≠ seat.globalName := fun heq =>
        hnot (List.mem_map.mpr ⟨seat, hmem, heq.symm⟩)
      have hregular : first.selRegular.extDataSource.map Prod.fst ≠ some source := hother .regular
      have hprimary : first.selPrimary.extDataSource.map Prod.fst ≠ some source := hother .primary
      rw [Wayland.cancelIn, if_neg hregular, if_neg hprimary, List.map_cons,
        ih hseats hnamed hmem, if_neg hname]

/-- Nothing is done to a selection without a source. -/
theorem Shown.cancelled_none (h : Shown config events pending seats) {name : SelectionName}
    {seat : Seat} (hfind : seats.find? (fun seat => seat.globalName = name.1) = some seat)
    (hsource : (seat.sel name.2).extDataSource = none) :
    seats.map (fun other => if other.globalName = name.1 then
      other.setSel name.2 (dataSourceEventCancelled true (other.sel name.2)) else other) =
        seats := by
  refine (List.map_congr_left fun other hmem => ?_).trans (List.map_id' seats)
  split
  · rename_i hname
    rw [eq_of_find h.shows.nodup hfind hmem hname]
    have hsame : dataSourceEventCancelled true (seat.sel name.2) = seat.sel name.2 := by
      rw [dataSourceEventCancelled, if_pos rfl, ← hsource]
    rw [hsame]
    cases name.2 <;> rfl
  · rfl

/-- The source of a selection is cancelled. -/
theorem Shown.cancelled (h : Shown config events pending seats) {name : SelectionName}
    {seat : Seat} (hfind : seats.find? (fun seat => seat.globalName = name.1) = some seat)
    (hsource : (seat.sel name.2).extDataSource ≠ none) :
    ∃ source, Shown config (events ++ [.cancelled source]) pending
      (seats.map fun other => if other.globalName = name.1 then
        other.setSel name.2 (dataSourceEventCancelled true (other.sel name.2)) else other) := by
  rw [h.shows.findSeat, Option.map_eq_some_iff] at hfind
  obtain ⟨object, hobject, rfl⟩ := hfind
  have hname : object.globalName = name.1 := by
    have hfound := List.find?_some hobject
    exact of_decide_eq_true hfound
  rw [object.sel_view] at hsource
  obtain ⟨⟨source, data⟩, hheld⟩ : ∃ held, (object.sel name.2).extDataSource = some held := by
    refine Option.ne_none_iff_exists'.mp fun hnone => hsource ?_
    rw [WlSelection.view, hnone]
    rfl
  have hsel : (object.sel name.2).extDataSource.map Prod.fst = some source := by rw [hheld]; rfl
  refine ⟨source, h.next ?_⟩
  rintro wl rfl hwl
  generalize run (Wayland.step config) Wayland.init events = wl at hwl hobject ⊢
  have hmem : object ∈ wl.seats := List.mem_of_find?_eq_some hobject
  have hacc := hwl.owned.owns.accounts.accounted
  have hlive := (hacc.mem source.proxy).mp
    (Multiset.mem_add.mpr (Or.inr (mem_seatsHeld hmem (source_held_seat hsel))))
  have hnodup := (Multiset.nodup_add.mp hacc.nodup).2.1
  have hstep : wl.step config (.cancelled source) = { wl with
      seats := Wayland.cancelIn source wl.seats
      wire := wl.wire.destroy (some source) } := if_pos hlive
  refine ⟨trivial, trivial, ?_⟩
  rw [hstep, ← hwl.seats, ← hname]
  exact ⟨cancelIn_view hnodup hwl.owned.named hmem hsel, hwl.offers⟩

/-- Events that do nothing here. -/
theorem Shown.skip (h : Shown config events pending seats) {event : WaylandEvent}
    (hevent : ∀ wl, Shows pending seats wl → Wayland.Settles config wl event ∧ wl.Timely event ∧
      wl.step config event = wl) : Shown config (events ++ [event]) pending seats := by
  refine h.next fun wl _ hwl => ?_
  obtain ⟨hsettled, htimely, hstep⟩ := hevent wl hwl
  rw [hstep]
  exact ⟨hsettled, htimely, hwl.seats, hwl.offers⟩

end Shown

/-! ## The daemon -/

/-- `wayland_set` is called. -/
def WaylandEvent.Sets (event : WaylandEvent) : Prop :=
  ∃ ignore callback, event = .set ignore callback

/-- The events of the objects that an event of the daemon stands for: a seat is announced and named;
a selection event asks for so many of the offered types; the clipboard is set after it, or for a
client. -/
inductive StandsFor (receives : ℕ) : Event → List WaylandEvent → Prop
  | addSeat {n : ℕ} {name : CString} (callback : SelectionName → SetResult) :
      StandsFor receives (.addSeat n name) [.global n, .seatName n name callback]
  | addSeatAgain {n : ℕ} {name : CString} : StandsFor receives (.addSeat n name) [.global n]
  | removeSeat {n : ℕ} : StandsFor receives (.removeSeat n) [.globalRemove n]
  | dataOffer {n : ℕ} : StandsFor receives (.dataOffer n) [.dataOffer n]
  | offer {n : ℕ} {mimeType : CString} (toplevel : Option MimeFilter) :
      StandsFor receives (.offer n mimeType) [.offer n mimeType toplevel]
  | selection {name : SelectionName} {offer : Option (ℕ → Option Bytes)} {timerOk : Bool}
      {o : Option (Handle .offer)} (canSet : Bool) {sets : List WaylandEvent}
      (ho : o.isSome = offer.isSome) (hsets : ∀ event ∈ sets, event.Sets) :
      StandsFor receives (.selection name offer timerOk)
        (.selection name o canSet (timerResult timerOk) receives :: sets)
  | cancelled {name : SelectionName} {source : Handle .source} :
      StandsFor receives (.cancelled name true) [.cancelled source]
  | cancelledBefore {name : SelectionName} {current : Bool} :
      StandsFor receives (.cancelled name current) []
  | nullTimer {name : SelectionName} {ok : Bool} {result : SetResult} :
      StandsFor receives (.nullTimer name ok) [.nullTimer name ok result]
  | toplevel {tp : Option MimeFilter} : StandsFor receives (.toplevel tp) []
  | connect {fd : ℕ} : StandsFor receives (.connect fd) []
  | disconnect {fd : ℕ} : StandsFor receives (.disconnect fd) []
  | message {fd : ℕ} {msg : Option Request} {sets : List WaylandEvent}
      (hsets : ∀ event ∈ sets, event.Sets) : StandsFor receives (.message fd msg) sets

namespace State

/-- A seat of this name receives events. -/
def takesPart (s : State) (n : ℕ) : Bool :=
  (s.seats.find? fun seat => seat.globalName = n).any Seat.enabled

/-- The offers that have been announced on each seat without a selection event about them. -/
def announced (s : State) (pending : ℕ → ℕ) : Event → ℕ → ℕ
  | .dataOffer n =>
    if s.takesPart n then Function.update pending n (pending n + 1) else pending
  | .selection name (some _) _ =>
    if s.takesPart name.1 then Function.update pending name.1 (pending name.1 - 1) else pending
  | _ => pending

/-- The session goes on, the compositor announces each offer before it is selected, and no timer
expires late, after its selection has closed it. -/
def Polite (s : State) (pending : ℕ → ℕ) : Event → Prop
  | .restart _ => False
  | .selection name (some _) _ => s.takesPart name.1 = true → 0 < pending name.1
  | .nullTimer name _ =>
    (s.findSeat name.1).any (fun seat => seat.enabled && (seat.sel name.2).nullTimer) = true
  | _ => True

/-- The seats are shown by these events of the objects. -/
def Objects (config : Config) (events : List WaylandEvent) (pending : ℕ → ℕ) (s : State) : Prop :=
  s.config = config ∧ Shown config events pending s.seats

/-- They are shown once the clipboard has been set a few more times. -/
def Followed (config : Config) (events : List WaylandEvent) (pending : ℕ → ℕ) (s : State) : Prop :=
  ∃ sets, (∀ event ∈ sets, event.Sets) ∧ Objects config (events ++ sets) pending s

section Steps
variable {config : Config} {events : List WaylandEvent} {pending : ℕ → ℕ} {s : State}
  {n receives : ℕ}

theorem not_started {wl : Wayland} (hwl : Shows pending s.seats wl)
    (hnot : s.takesPart n = false) : ¬ wl.started n = true := by
  rw [← hwl.started, ← takesPart, hnot]
  exact Bool.false_ne_true

theorem armed_of_polite {name : SelectionName} {ok : Bool}
    (h : s.Polite pending (.nullTimer name ok)) :
    ∃ seat, s.findSeat name.1 = some seat ∧ seat.enabled = true ∧
      (seat.sel name.2).nullTimer = true := by
  obtain ⟨seat, hfind, harmed⟩ := (Option.any_eq_true _ _).mp h
  exact ⟨seat, hfind, Bool.and_eq_true_iff.mp harmed⟩

/-- A seat that is put back is the only one of its name. -/
theorem putSeat_map (hnodup : (s.seats.map Seat.globalName).Nodup) {seat : Seat}
    (hfind : s.findSeat n = some seat) {g : Seat → Seat}
    (hname : ∀ seat, (g seat).globalName = seat.globalName) :
    (s.putSeat (g seat)).seats =
      s.seats.map fun other => if other.globalName = n then g other else other := by
  refine List.map_congr_left fun other hmem => ?_
  rw [hname, findSeat_globalName hfind]
  split
  · rename_i heq
    rw [eq_of_find hnodup hfind hmem heq]
  · rfl

/-- What is done on a seat that takes part, and what the objects do instead if there is none. -/
theorem onSeat_objects (h : Objects config events pending s) {event : Event}
    {f : Seat → State → State} {pending' : ℕ → ℕ}
    (hdone : ∀ seat, s.findSeat n = some seat → s.takesPart n = true →
      ∃ part, StandsFor receives event part ∧ Objects config (events ++ part) pending' (f seat s))
    (hskip : s.takesPart n = false →
      ∃ part, StandsFor receives event part ∧ Shown config (events ++ part) pending s.seats) :
    ∃ part, StandsFor receives event part ∧
      Objects config (events ++ part) (if s.takesPart n then pending' else pending)
        (s.onSeat n f) := by
  have htakes : s.takesPart n = (s.findSeat n).any Seat.enabled := rfl
  have hskipped : s.takesPart n = false → ∃ part, StandsFor receives event part ∧
      Objects config (events ++ part) pending s := by
    intro hnot
    obtain ⟨part, hstands, hshown⟩ := hskip hnot
    exact ⟨part, hstands, h.1, hshown⟩
  unfold onSeat
  cases hfind : s.findSeat n with
  | none =>
    rw [hfind] at htakes
    rw [htakes]
    exact hskipped htakes
  | some seat =>
    rw [hfind, Option.any_some] at htakes
    rw [htakes]
    dsimp only
    split
    · rename_i henabled
      exact hdone seat hfind (htakes.trans henabled)
    · rename_i hdisabled
      exact hskipped (htakes.trans (Bool.not_eq_true _ ▸ hdisabled))

theorem onSeat_same (h : Objects config events pending s) {event : Event}
    {f : Seat → State → State} (hdone : ∀ seat, s.findSeat n = some seat → s.takesPart n = true →
      ∃ part, StandsFor receives event part ∧ Objects config (events ++ part) pending (f seat s))
    (hskip : s.takesPart n = false →
      ∃ part, StandsFor receives event part ∧ Shown config (events ++ part) pending s.seats) :
    ∃ part, StandsFor receives event part ∧
      Objects config (events ++ part) pending (s.onSeat n f) := by
  have hall := onSeat_objects h hdone hskip
  rwa [ite_self] at hall

theorem putSeat_objects (h : Objects config events pending s) {events' : List WaylandEvent}
    {pending' : ℕ → ℕ} {seat : Seat} (hfind : s.findSeat n = some seat) {g : Seat → Seat}
    (hname : ∀ seat, (g seat).globalName = seat.globalName)
    (hshown : Shown config events' pending'
      (s.seats.map fun other => if other.globalName = n then g other else other)) :
    Objects config events' pending' (s.putSeat (g seat)) := by
  refine ⟨h.1, ?_⟩
  rwa [putSeat_map h.2.shows.nodup hfind hname]

theorem Objects.followed (h : Objects config events pending s) :
    Followed config events pending s :=
  ⟨[], fun _ he => absurd he List.not_mem_nil, by rwa [List.append_nil]⟩

/-- The clipboard is set once more. -/
theorem Followed.set {x y : State} (h : Followed config events pending x)
    (hconfig : y.config = x.config) {callback : SelectionName → SetResult}
    {ignore : Option SelectionName}
    (hseats : y.seats = Swayclip.waylandSet callback ignore x.seats) :
    Followed config events pending y := by
  obtain ⟨sets, hsets, hxconfig, hshown⟩ := h
  refine ⟨sets ++ [.set ignore callback], fun event he => ?_, hconfig.trans hxconfig, ?_⟩
  · rcases List.mem_append.mp he with he | he
    · exact hsets event he
    · exact ⟨ignore, callback, List.mem_singleton.mp he⟩
  · rw [hseats, ← List.append_assoc]
    exact hshown.set callback ignore

theorem Followed.same {x y : State} (h : Followed config events pending x)
    (hconfig : y.config = x.config) (hseats : y.seats = x.seats) :
    Followed config events pending y := by
  obtain ⟨sets, hsets, hxconfig, hshown⟩ := h
  exact ⟨sets, hsets, hconfig.trans hxconfig, hseats ▸ hshown⟩

theorem effect_followed {a : Ambient} {x y : State} (he : Effect a x y)
    (h : Followed config events pending x) : Followed config events pending y := by
  have hconfig := (effect_session he).config
  cases he with
  | client | emit | reset | delete | clear => exact h.same hconfig rfl
  | set ignore id => exact h.set hconfig (set_seats ..)
  | update id pinned =>
    refine h.same hconfig ?_
    unfold State.update
    split <;> rfl

theorem seatSet_clear (callback : SelectionName → SetResult) (ignore : Option SelectionName)
    (seat : Seat) : seatSet callback ignore (seatClearMimeTypes seat) =
      seatClearMimeTypes (seatSet callback ignore seat) := by
  have hone : ∀ type (seat : Seat),
      (seatClearMimeTypes seat).setUnless callback ignore type =
        seatClearMimeTypes (seat.setUnless callback ignore type) := by
    intro type seat
    have hsel : (seatClearMimeTypes seat).sel type = seat.sel type := by cases type <;> rfl
    have hname : (seatClearMimeTypes seat).globalName = seat.globalName := rfl
    rw [Seat.setUnless, Seat.setUnless, hsel, hname]
    by_cases hset : (seat.sel type).enabled ∧ ignore ≠ some (seat.globalName, type)
    · rw [if_pos hset, if_pos hset]
      cases type <;> rfl
    · rw [if_neg hset, if_neg hset]
  rw [seatSet, hone, hone, seatSet]

theorem waylandSet_clear (callback : SelectionName → SetResult) (ignore : Option SelectionName)
    (seats : List Seat) (n : ℕ) :
    (Swayclip.waylandSet callback ignore seats).map
        (fun seat => if seat.globalName = n then seatClearMimeTypes seat else seat) =
      Swayclip.waylandSet callback ignore
        (seats.map fun seat => if seat.globalName = n then seatClearMimeTypes seat else seat) := by
  rw [Swayclip.waylandSet, Swayclip.waylandSet, List.map_map, List.map_map]
  refine List.map_congr_left fun seat _ => ?_
  have hkept : (seatClearMimeTypes seat).enabled = seat.enabled := rfl
  dsimp only [Function.comp_apply]
  by_cases henabled : seat.enabled = true
  · by_cases hname : seat.globalName = n
    · rw [if_pos henabled, if_pos ((seatSet_globalName ..).trans hname), if_pos hname, hkept,
        if_pos henabled, seatSet_clear]
    · rw [if_pos henabled, if_neg fun heq => hname ((seatSet_globalName ..).symm.trans heq),
        if_neg hname, if_pos henabled]
  · by_cases hname : seat.globalName = n
    · rw [if_neg henabled, if_pos hname, hkept, if_neg henabled]
    · rw [if_neg henabled, if_neg hname, if_neg henabled]

theorem part_followed {a : Ambient} {x y : State} (hp : Part a x y)
    (h : Followed config events pending (x.clearMimeTypes n)) :
    Followed config events pending (y.clearMimeTypes n) := by
  have hconfig : (y.clearMimeTypes n).config = (x.clearMimeTypes n).config :=
    (part_session hp).config
  cases hp with
  | database | emit | reset => exact h.same hconfig rfl
  | set name id =>
    have hseats := waylandSet_clear ((x.set a.sql (some name) id).setCallback a.sql) (some name)
      x.seats n
    rw [← set_seats] at hseats
    exact h.set hconfig hseats

theorem selectionSeat_globalName (type : SelectionType) (offer canSet timerOk : Bool)
    (seat : Seat) :
    (selectionSeat type offer canSet timerOk seat).globalName = seat.globalName := by
  simp only [selectionSeat]
  split
  · exact seat.setSel_globalName type _
  · exact seat.setSel_globalName type _

/-- A selection event that is not delivered. -/
theorem selection_quiet {a : Ambient} {type : SelectionType} {offer : Option (ℕ → Option Bytes)}
    {timerOk : Bool} {seat : Seat}
    (h : (selectionEvent seat.blocked offer.isSome s.wsignalCanSet timerOk (seat.sel type)).1 =
      false) :
    s.selection a type offer timerOk seat =
      s.putSeat (selectionSeat type offer.isSome s.wsignalCanSet timerOk seat) := by
  simp only [selection, selectionSeat]
  split
  · rename_i hdeliver
    rw [h] at hdeliver
    cases hdeliver
  · rw [h]
    rfl

/-- A selection event that is delivered; the types go once it has been handled. -/
theorem selection_delivered {a : Ambient} {type : SelectionType} {written : ℕ → Option Bytes}
    {timerOk : Bool} {seat : Seat}
    (hdeliver : (selectionEvent seat.blocked true s.wsignalCanSet timerOk (seat.sel type)).1 = true)
    (h : Objects config events pending
      (s.putSeat (selectionSeat type true s.wsignalCanSet timerOk seat))) :
    Followed config events pending (s.selection a type (some written) timerOk seat) := by
  have hclear : s.putSeat (selectionSeat type true s.wsignalCanSet timerOk seat) =
      (s.putSeat (seat.setSel type (selectionEvent seat.blocked true s.wsignalCanSet timerOk
        (seat.sel type)).2)).clearMimeTypes seat.globalName := by
    simp only [selectionSeat, hdeliver, if_true]
    rw [clearMimeTypes, putSeat, putSeat]
    congr 1
    rw [List.map_map]
    refine List.map_congr_left fun other _ => ?_
    have hname : (seatClearMimeTypes (seat.setSel type (selectionEvent seat.blocked true
        s.wsignalCanSet timerOk (seat.sel type)).2)).globalName = seat.globalName :=
      seat.setSel_globalName type _
    dsimp only [Function.comp_apply]
    rw [hname, Seat.setSel_globalName]
    by_cases hother : other.globalName = seat.globalName
    · rw [if_pos hother, if_pos hother, if_pos (seat.setSel_globalName type _)]
    · rw [if_neg hother, if_neg hother, if_neg hother]
  rw [hclear] at h
  simp only [selection, Option.isSome_some, hdeliver]
  exact wsignalSelection_preserve
    (P := fun x => Followed config events pending (x.clearMimeTypes seat.globalName)) a
    (fun _ _ hx => hx) (fun _ _ => part_followed) _ _ _ _ h.followed

theorem selection_followed {a : Ambient} {type : SelectionType} {offer : Option (ℕ → Option Bytes)}
    {timerOk : Bool} {seat : Seat}
    (h : Objects config events pending
      (s.putSeat (selectionSeat type offer.isSome s.wsignalCanSet timerOk seat))) :
    Followed config events pending (s.selection a type offer timerOk seat) := by
  cases hdeliver : (selectionEvent seat.blocked offer.isSome s.wsignalCanSet timerOk
      (seat.sel type)).1 with
  | false =>
    rw [selection_quiet hdeliver]
    exact h.followed
  | true =>
    cases offer with
    | none =>
      rw [selectionEvent_fst, Option.isSome_none, Bool.and_false] at hdeliver
      cases hdeliver
    | some written => exact selection_delivered hdeliver h

theorem setSel_self (seat : Seat) (type : SelectionType) :
    seat.setSel type (seat.sel type) = seat := by
  cases type <;> rfl

/-- The objects carry out a selection event and what the daemon sets then. -/
theorem Followed.selection {name : SelectionName} {offer : Option (ℕ → Option Bytes)}
    {timerOk canSet : Bool} {o : Option (Handle .offer)} (ho : o.isSome = offer.isSome)
    (h : Followed config
      (events ++ [.selection name o canSet (timerResult timerOk) receives]) pending s) :
    ∃ part, StandsFor receives (.selection name offer timerOk) part ∧
      Objects config (events ++ part) pending s := by
  obtain ⟨sets, hsets, hobjects⟩ := h
  refine ⟨_, .selection canSet ho hsets, ?_⟩
  rwa [List.append_assoc, List.singleton_append] at hobjects

/-- A selection event on a seat that takes no part. -/
theorem selection_skipped (h : Objects config events pending s) {name : SelectionName}
    (hnot : s.takesPart name.1 = false) (offer : Option (ℕ → Option Bytes)) (timerOk : Bool) :
    ∃ part, StandsFor receives (.selection name offer timerOk) part ∧
      Shown config (events ++ part) pending s.seats := by
  refine ⟨[.selection name (offer.map fun _ => ⟨0⟩) false (timerResult timerOk) receives],
    .selection false (by simp) fun _ he => absurd he List.not_mem_nil, h.2.skip fun wl hwl => ?_⟩
  exact ⟨trivial, trivial, if_neg fun hstarted => not_started hwl hnot hstarted.1⟩

/-- One step of the daemon is carried out by the objects. -/
theorem step_objects (h : Objects config events pending s) {i : Input}
    (hpolite : s.Polite pending i.event) (receives : ℕ) : ∃ part, StandsFor receives i.event part ∧
      Objects config (events ++ part) (s.announced pending i.event) (step s i) := by
  have hshown := h.2
  have hsame : ∀ {x : State}, x.config = s.config → x.seats = s.seats →
      Objects config (events ++ []) pending x := by
    intro x hconfig hseats
    refine ⟨hconfig.trans h.1, ?_⟩
    rwa [hseats, List.append_nil]
  obtain ⟨event, ambient⟩ := i
  cases event with
  | restart config => exact hpolite.elim
  | addSeat n name =>
    change ∃ part, _ ∧ Objects config (events ++ part) pending (s.addSeat (ambient 0) n name)
    unfold State.addSeat
    cases hfind : s.findSeat n with
    | none =>
      refine ⟨_, .addSeat (s.setCallback (ambient 0).sql), h.1, ?_⟩
      dsimp only
      rw [h.1]
      exact hshown.addSeat hfind name _
    | some seat =>
      refine ⟨_, .addSeatAgain, h.1, hshown.skip fun wl hwl => ⟨trivial, trivial, ?_⟩⟩
      have hknown := hwl.findSeat n
      rw [show s.seats.find? (fun seat => seat.globalName = n) = some seat from hfind] at hknown
      refine if_pos ?_
      rw [← Option.isSome_map (f := WlSeat.view), ← hknown]
      rfl
  | removeSeat n => exact ⟨_, .removeSeat, h.1, hshown.removeSeat n⟩
  | dataOffer n =>
    refine onSeat_objects h (fun seat hfind hpart => ⟨_, .dataOffer, putSeat_objects h hfind
      (g := fun seat => { seat with toCollected := dataDeviceEventDataOffer }) (fun _ => rfl)
      (hshown.dataOffer hpart)⟩) fun hnot => ⟨_, .dataOffer, hshown.skip fun wl hwl => ?_⟩
    exact ⟨trivial, trivial, if_neg (not_started hwl hnot)⟩
  | offer n mimeType =>
    refine onSeat_same h (fun seat hfind hpart => ?_) fun hnot =>
      ⟨_, .offer s.activeToplevel, hshown.skip fun wl hwl => ?_⟩
    · have hoffered := hshown.offer hpart mimeType s.activeToplevel
      rw [← h.1] at hoffered
      refine ⟨_, .offer s.activeToplevel, ?_⟩
      have hobjects : Objects s.config events pending s := ⟨rfl, h.1.symm ▸ hshown⟩
      rw [← h.1]
      exact putSeat_objects hobjects hfind (g := fun seat =>
        let collected := dataOfferEventOffer s.config.toMimeFilter s.activeToplevel mimeType
          seat.toCollected
        { seat with toCollected := collected }) (fun _ => rfl) hoffered
    · exact ⟨trivial, trivial, if_neg (not_started hwl hnot)⟩
  | selection name offer timerOk =>
    cases offer with
    | none =>
      refine onSeat_same h (fun seat hfind hpart => ?_) fun hnot =>
        selection_skipped h hnot none timerOk
      have hput := putSeat_objects h hfind
        (selectionSeat_globalName name.2 false s.wsignalCanSet timerOk)
        (hshown.selection_none hpart s.wsignalCanSet timerOk receives)
      exact Followed.selection (o := none) rfl (selection_followed hput)
    | some written =>
      refine onSeat_objects h (fun seat hfind hpart => ?_) fun hnot =>
        selection_skipped h hnot (some written) timerOk
      obtain ⟨o, hselected⟩ :=
        hshown.selection_some hpart (hpolite hpart) s.wsignalCanSet timerOk receives
      have hput := putSeat_objects h hfind
        (selectionSeat_globalName name.2 true s.wsignalCanSet timerOk) hselected
      exact Followed.selection (o := some o) rfl (selection_followed hput)
  | cancelled name current =>
    refine onSeat_same h (fun seat hfind hpart => ?_) fun _ =>
      ⟨_, .cancelledBefore, by rwa [List.append_nil]⟩
    cases current with
    | false =>
      refine ⟨_, .cancelledBefore, putSeat_objects h hfind
        (g := fun seat => seat.setSel name.2 (seat.sel name.2))
        (fun seat => seat.setSel_globalName name.2 _) ?_⟩
      have hkeep : ∀ other ∈ s.seats, (if other.globalName = name.1 then
          other.setSel name.2 (other.sel name.2) else other) = other := by
        intro other _
        rw [setSel_self, ite_self]
      rwa [List.map_congr_left hkeep, List.map_id', List.append_nil]
    | true =>
      by_cases hsource : (seat.sel name.2).extDataSource = none
      · refine ⟨_, .cancelledBefore, putSeat_objects h hfind (g := fun seat =>
          seat.setSel name.2 (dataSourceEventCancelled true (seat.sel name.2)))
          (fun seat => seat.setSel_globalName name.2 _) ?_⟩
        rwa [hshown.cancelled_none hfind hsource, List.append_nil]
      · obtain ⟨source, hcancelled⟩ := hshown.cancelled hfind hsource
        exact ⟨_, .cancelled, putSeat_objects h hfind (g := fun seat =>
          seat.setSel name.2 (dataSourceEventCancelled true (seat.sel name.2)))
          (fun seat => seat.setSel_globalName name.2 _) hcancelled⟩
  | nullTimer name ok =>
    obtain ⟨seat, harmed, henabled, htimer⟩ := armed_of_polite hpolite
    refine onSeat_same h (fun found hfind hpart => ?_) fun hnot => ?_
    · obtain rfl := Option.some.inj (harmed.symm.trans hfind)
      have hput := putSeat_objects h hfind (g := fun seat => if (seat.sel name.2).nullTimer then
        seat.setSel name.2 (nullTimerCallback ok (s.setCallback (ambient 0).sql name)
          (seat.sel name.2)) else seat)
        (fun seat => by split <;> simp) (hshown.nullTimer name ok _)
      have hfires : s.nullTimer (ambient 0) name.2 ok seat = s.putSeat (seat.setSel name.2
          (nullTimerCallback ok (s.setCallback (ambient 0).sql name) (seat.sel name.2))) := by
        rw [State.nullTimer, if_pos htimer, findSeat_globalName hfind]
      rw [if_pos htimer, ← hfires] at hput
      exact ⟨_, .nullTimer, hput⟩
    · have htakes : (s.findSeat name.1).any Seat.enabled = false := hnot
      rw [harmed, Option.any_some, henabled] at htakes
      cases htakes
  | toplevel tp => exact ⟨_, .toplevel, hsame rfl rfl⟩
  | connect fd =>
    refine ⟨_, .connect, ?_⟩
    change Objects config (events ++ []) pending (s.connect fd)
    unfold State.connect
    split <;> exact hsame rfl rfl
  | disconnect fd => exact ⟨_, .disconnect, hsame rfl rfl⟩
  | message fd msg =>
    have hfollowed : Followed config events pending (s.handle ambient (.message fd msg)) := by
      unfold State.handle
      dsimp only
      split
      · exact h.followed
      · exact messageCallback_preserve (P := Followed config events pending) ambient
          (fun _ _ _ => effect_followed) _ _ h.followed
    obtain ⟨sets, hsets, hobjects⟩ := hfollowed
    exact ⟨sets, .message hsets, hobjects⟩

end Steps

/-- The daemon together with the count of announced offers. -/
def sessionStep (x : State × (ℕ → ℕ)) (i : Input) : State × (ℕ → ℕ) :=
  (Swayclip.step x.1 i, x.1.announced x.2 i.event)

/-- The events of the daemon are carried out one after the other. -/
theorem run_objects {config : Config} {x : State × (ℕ → ℕ)} {inputs : List (Input × ℕ)}
    (hmeets : Meets sessionStep (fun x i => x.1.Polite x.2 i.event) x (inputs.map Prod.fst))
    {events : List WaylandEvent} (h : Objects config events x.2 x.1) :
    ∃ parts, List.Forall₂ (fun i part => StandsFor i.2 i.1.event part) inputs parts ∧
      ∀ n, ∃ pending, Objects config (events ++ (parts.take n).flatten) pending
        (run Swayclip.step x.1 ((inputs.take n).map Prod.fst)) := by
  induction inputs generalizing x events with
  | nil => exact ⟨[], .nil, fun n => ⟨x.2, by simpa using h⟩⟩
  | cons i inputs ih =>
    obtain ⟨part, hstands, hnext⟩ := step_objects h hmeets.1 i.2
    obtain ⟨parts, hall, hobjects⟩ := ih (x := sessionStep x i.1) hmeets.2 hnext
    refine ⟨part :: parts, .cons hstands hall, fun n => ?_⟩
    cases n with
    | zero => exact ⟨x.2, by simpa using h⟩
    | succ n =>
      obtain ⟨pending, hn⟩ := hobjects n
      rw [List.append_assoc] at hn
      exact ⟨pending, hn⟩

end State

/-- Every session of the daemon is carried out by the protocol objects: each of its events, with the
number of types that it asks for, stands for events of theirs, after which they show the seats that
the daemon has; every object is accounted for, and no request is made on a data device that is not
there. -/
theorem session_has_objects (config : Config) (a : Ambient) (inputs : List (Input × ℕ))
    (h : Meets State.sessionStep (fun x i => x.1.Polite x.2 i.event)
      (boot config a, fun _ => 0) (inputs.map Prod.fst)) :
    ∃ parts, List.Forall₂ (fun i part => StandsFor i.2 i.1.event part) inputs parts ∧ ∀ n,
      let wl := run (Wayland.step config) Wayland.init (parts.take n).flatten
      wl.seats.map WlSeat.view =
          (run step (boot config a) ((inputs.take n).map Prod.fst)).seats ∧
        Accounted wl.wire.trace wl.held ∧ wl.wire.nullRequest = false := by
  obtain ⟨parts, hall, hobjects⟩ := State.run_objects h ⟨rfl, Shown.init config⟩
  refine ⟨parts, hall, fun n => ?_⟩
  obtain ⟨pending, -, -, hwl⟩ := hobjects n
  exact ⟨hwl.seats, hwl.owned.owns.accounts.accounted, hwl.sound.null⟩

/-- A seat, and an offer that is announced and selected there, whose only type is asked for. -/
def offerOnce : List (Input × ℕ) :=
  [(.quiet (.addSeat 0 seat0), 0), (.quiet (.dataOffer 0), 0), (.quiet (.offer 0 textPlain), 0),
    (.quiet (.selection (0, .regular) (some fun _ => some [65]) true), 1)]

theorem offerOnce_has_objects :
    ∃ parts, List.Forall₂ (fun i part => StandsFor i.2 i.1.event part) offerOnce parts ∧ ∀ n,
      let wl := run (Wayland.step configInit) Wayland.init (parts.take n).flatten
      wl.seats.map WlSeat.view =
          (run step (boot configInit (.quiet 0)) ((offerOnce.take n).map Prod.fst)).seats ∧
        Accounted wl.wire.trace wl.held ∧ wl.wire.nullRequest = false :=
  session_has_objects configInit (.quiet 0) offerOnce
    ⟨trivial, trivial, trivial, fun _ => by decide +kernel, trivial⟩

end Swayclip
