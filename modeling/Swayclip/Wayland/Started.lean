import Swayclip.Wayland.Lifecycle

/-! # Seats that take part

A seat takes part in the clipboard from its configured name on: it has a data device, and it is
enabled. When a seat is stopped, for a new name that is not configured, it loses its data device
but stays enabled. Only this can lead to a request on a data device that is not there.
-/

namespace Swayclip
open Library.Runs

/-! ## Which names are configured -/

section Configured
variable (config : Config) (name : CString)

theorem seatIsConfiguredIn_fst (seats : List ConfigSeat) (regular primary : Bool) :
    (seatIsConfiguredIn name seats regular primary).1 =
      (seatIsConfiguredIn name seats false false).1 := by
  induction seats generalizing regular primary with
  | nil => rfl
  | cons c seats ih =>
    unfold seatIsConfiguredIn
    split
    · split
      · rfl
      · rfl
    · exact ih regular primary

theorem seatIsConfiguredIn_fresh (seats : List ConfigSeat) :
    seatIsConfiguredIn name seats false false =
      match (seats.filter (fun c => c.name = none ∨ c.name = some name)).find?
        (fun c => c.regular || c.primary) with
      | some c => (true, c.regular, c.primary)
      | none => (false, false, false) := by
  induction seats with
  | nil => rfl
  | cons c seats ih =>
    unfold seatIsConfiguredIn
    split
    · rename_i hname
      rw [List.filter_cons_of_pos (by simpa using hname)]
      split
      · rename_i hset
        rw [List.find?_cons_of_pos (p := fun c : ConfigSeat => c.regular || c.primary) hset]
      · rename_i hset
        rw [List.find?_cons_of_neg (p := fun c : ConfigSeat => c.regular || c.primary) hset, ← ih]
        have hflags : c.regular = false ∧ c.primary = false := by simpa using hset
        rw [hflags.1, hflags.2]
    · rename_i hname
      rw [List.filter_cons_of_neg (by simpa using hname), ← ih]

/-- Whether a name is configured does not depend on the flags that are written. -/
theorem seatIsConfigured_fst (regular primary : Bool) :
    (seatIsConfigured config name regular primary).1 = (waylandSeatIsConfigured config name).1 := by
  rw [waylandSeatIsConfigured, seatIsConfigured]
  split
  · rfl
  · exact (seatIsConfiguredIn_fst name _ regular primary).trans
      (congrArg Prod.fst (seatIsConfiguredIn_fresh name _))

theorem seatIsConfigured_fresh :
    seatIsConfigured config name false false = waylandSeatIsConfigured config name := by
  rw [waylandSeatIsConfigured, seatIsConfigured]
  split
  · rfl
  · exact seatIsConfiguredIn_fresh name _

end Configured

namespace WlSeat

/-- The flag says what the pointer says. -/
def Agrees (seat : WlSeat) : Prop := seat.enabled = seat.extDataDevice.isSome

theorem setSel_device (seat : WlSeat) (type : SelectionType) (sel : WlSelection) :
    (seat.setSel type sel).enabled = seat.enabled ∧
      (seat.setSel type sel).extDataDevice = seat.extDataDevice := by
  cases type <;> exact ⟨rfl, rfl⟩

theorem setUnless_device (callback : SelectionName → SetResult) (ignore : Option SelectionName)
    (type : SelectionType) (seat : WlSeat) (w : Wire) :
    (seat.setUnless callback ignore type w).1.enabled = seat.enabled ∧
      (seat.setUnless callback ignore type w).1.extDataDevice = seat.extDataDevice := by
  unfold setUnless
  split
  · exact seat.setSel_device type _
  · exact ⟨rfl, rfl⟩

theorem seatSet_device (callback : SelectionName → SetResult) (ignore : Option SelectionName)
    (seat : WlSeat) (w : Wire) :
    (seat.seatSet callback ignore w).1.enabled = seat.enabled ∧
      (seat.seatSet callback ignore w).1.extDataDevice = seat.extDataDevice := by
  have hregular := seat.setUnless_device callback ignore .regular w
  have hprimary := (seat.setUnless callback ignore .regular w).1.setUnless_device callback ignore
    .primary (seat.setUnless callback ignore .regular w).2
  exact ⟨hprimary.1.trans hregular.1, hprimary.2.trans hregular.2⟩

/-- A new name spares the flag unless a seat that takes part has to stop. -/
theorem nameEvent_agrees_iff {seat : WlSeat} (h : seat.Agrees) (config : Config) (name : CString)
    (callback : SelectionName → SetResult) (w : Wire) :
    (seat.nameEvent config name callback w).1.Agrees ↔
      (seat.extDataDevice.isSome → (waylandSeatIsConfigured config name).1 = true) := by
  rw [← seatIsConfigured_fst config name seat.selRegular.enabled seat.selPrimary.enabled]
  unfold Agrees at h
  simp only [nameEvent]
  split
  · rename_i hconfigured
    refine iff_of_true ?_ fun _ => hconfigured
    unfold seatStart
    split
    · exact h
    · obtain ⟨henabled, hdevice⟩ := seatSet_device callback none
        { seat.renamed name _ _ with
          extDataDevice := some ((w.use (some seat.proxy)).make .device).1, enabled := true }
        ((w.use (some seat.proxy)).make .device).2
      exact henabled.trans (congrArg Option.isSome hdevice).symm
  · rename_i hconfigured
    unfold seatStop
    cases hdevice : seat.extDataDevice with
    | none =>
      simp only [renamed, hdevice, Option.isNone_none, if_true]
      exact iff_of_true (h.trans (congrArg Option.isSome hdevice)) (by simp)
    | some device =>
      simp only [renamed, hdevice, Option.isNone_some]
      refine iff_of_false ?_ fun hall => hconfigured (hall rfl)
      simp [Agrees, uninitSelections, h, hdevice]

end WlSeat

namespace Wayland

/-- Each flag says what the pointer of its seat says. -/
def Agrees (wl : Wayland) : Prop := ∀ seat ∈ wl.seats, seat.Agrees

/-- No seat that takes part is given a name that is not configured. -/
def Settles (config : Config) (wl : Wayland) : WaylandEvent → Prop
  | .seatName name newName _ => ∀ seat ∈ wl.seats, seat.globalName = name →
      seat.extDataDevice.isSome → (waylandSeatIsConfigured config newName).1 = true
  | _ => True

section Seats
variable {f : WlSeat → Wire → WlSeat × Wire} {P Q : WlSeat → Prop} {seats : List WlSeat} {w : Wire}

theorem mapSeats_forall_iff (h : ∀ seat ∈ seats, ∀ w, P (f seat w).1 ↔ Q seat) :
    (∀ seat ∈ (mapSeats f seats w).1, P seat) ↔ ∀ seat ∈ seats, Q seat := by
  induction seats generalizing w with
  | nil => exact iff_of_true (by simp [mapSeats]) (by simp)
  | cons seat seats ih =>
    simp only [mapSeats, List.forall_mem_cons]
    exact and_congr (h seat List.mem_cons_self w)
      (ih fun seat hmem => h seat (List.mem_cons_of_mem _ hmem))

/-- A function of one seat that leaves its data device as it is. -/
def KeepsDevice (f : WlSeat → Wire → WlSeat × Wire) : Prop :=
  ∀ seat w, (f seat w).1.enabled = seat.enabled ∧ (f seat w).1.extDataDevice = seat.extDataDevice

theorem KeepsDevice.agrees_iff (hf : KeepsDevice f) (seat : WlSeat) (w : Wire) :
    (f seat w).1.Agrees ↔ seat.Agrees := by
  rw [WlSeat.Agrees, (hf seat w).1, (hf seat w).2, WlSeat.Agrees]

theorem KeepsDevice.only (hf : KeepsDevice f) (name : ℕ) : KeepsDevice (only name f) := by
  intro seat w
  unfold Wayland.only
  split
  · exact hf seat w
  · exact ⟨rfl, rfl⟩

theorem collect_device (g : Collected → Collected) : KeepsDevice (collect g) :=
  fun _ _ => ⟨rfl, rfl⟩

theorem selectionOn_device (type : SelectionType) (offer : Option (Handle .offer))
    (canSet : Bool) (timer : TimerResult) (receives : ℕ) :
    KeepsDevice (selectionOn type offer canSet timer receives) := by
  intro seat w
  simp only [selectionOn]
  split <;> exact seat.setSel_device type _

theorem nullTimerOn_device (type : SelectionType) (ok : Bool) (result : SetResult) :
    KeepsDevice (nullTimerOn type ok result) := by
  intro seat w
  unfold nullTimerOn
  split
  · exact seat.setSel_device type _
  · exact ⟨rfl, rfl⟩

theorem disarmOn_device (type : SelectionType) : KeepsDevice (disarmOn type) :=
  fun seat _ => seat.setSel_device type _

theorem setOn_device (ignore : Option SelectionName) (callback : SelectionName → SetResult) :
    KeepsDevice (setOn ignore callback) := by
  intro seat w
  unfold setOn
  split
  · exact seat.seatSet_device callback ignore w
  · exact ⟨rfl, rfl⟩

end Seats

section Agrees
variable {wl : Wayland} {f : WlSeat → Wire → WlSeat × Wire}

theorem Agrees.onSeats (h : wl.Agrees) (hf : KeepsDevice f) : (wl.onSeats f).Agrees :=
  (mapSeats_forall_iff fun seat _ w => hf.agrees_iff seat w).mpr h

theorem Agrees.onSeat (h : wl.Agrees) (hf : KeepsDevice f) (name : ℕ) :
    (wl.onSeat name f).Agrees :=
  h.onSeats (hf.only name)

theorem cancelIn_agrees (source : Handle .source) {seats : List WlSeat}
    (h : ∀ seat ∈ seats, seat.Agrees) : ∀ seat ∈ cancelIn source seats, seat.Agrees := by
  induction seats with
  | nil => exact h
  | cons seat seats ih =>
    rw [List.forall_mem_cons] at h
    unfold cancelIn
    split
    · exact List.forall_mem_cons.mpr h
    · split
      · exact List.forall_mem_cons.mpr h
      · exact List.forall_mem_cons.mpr ⟨h.1, ih h.2⟩

theorem Agrees.delSeat (h : wl.Agrees) (name : ℕ) : (wl.delSeat name).Agrees := by
  unfold Wayland.delSeat
  cases wl.findSeat name with
  | none => exact h
  | some seat => exact fun other hmem => h other (List.mem_of_mem_eraseP hmem)

theorem Agrees.addSeat (h : wl.Agrees) (name : ℕ) : (wl.addSeat name).Agrees := by
  unfold Wayland.addSeat
  split
  · exact h
  · intro seat hmem
    rcases List.mem_cons.mp hmem with rfl | hmem
    · rfl
    · exact h seat hmem

theorem Agrees.dataOffer (h : wl.Agrees) (name : ℕ) : (wl.dataOffer name).Agrees := by
  unfold Wayland.dataOffer
  split
  · have hmade : Agrees { wl with
        offers := (name, (wl.wire.make .offer).1) :: wl.offers
        wire := (wl.wire.make .offer).2 } := h
    exact hmade.onSeat (collect_device _) name
  · exact h

theorem Agrees.offer (h : wl.Agrees) (config : Config) (name : ℕ) (mimeType : CString)
    (toplevel : Option MimeFilter) : (wl.offer config name mimeType toplevel).Agrees := by
  unfold Wayland.offer
  split
  · exact h.onSeat (collect_device _) name
  · exact h

theorem Agrees.selection (h : wl.Agrees) (name : SelectionName) (offer : Option (Handle .offer))
    (canSet : Bool) (timer : TimerResult) (receives : ℕ) :
    (wl.selection name offer canSet timer receives).Agrees := by
  unfold Wayland.selection
  split
  · have htaken : Agrees { wl with
        offers := (offer.map fun o => wl.offers.erase (name.1, o)).getD wl.offers } := h
    exact htaken.onSeat (selectionOn_device _ _ _ _ _) name.1
  · exact h

theorem Agrees.finished (h : wl.Agrees) (name : ℕ) : (wl.finished name).Agrees := by
  unfold Wayland.finished
  split
  · exact h.delSeat name
  · exact h

theorem Agrees.cancelled (h : wl.Agrees) (source : Handle .source) :
    (wl.cancelled source).Agrees := by
  unfold Wayland.cancelled
  split
  · exact cancelIn_agrees source h
  · exact h

theorem Agrees.lateTimer (h : wl.Agrees) (name : SelectionName) (fd : Handle .timer) :
    (wl.lateTimer name fd).Agrees := by
  unfold Wayland.lateTimer
  split
  · have hclosed : Agrees { wl with wire := (wl.wire.use (some fd)).destroy (some fd) } := h
    exact hclosed.onSeat (disarmOn_device name.2) name.1
  · exact h

/-- Each event keeps flags and pointers together exactly if it stops no seat. -/
theorem agrees_step_iff (h : wl.Agrees) (config : Config) (event : WaylandEvent) :
    (wl.step config event).Agrees ↔ Settles config wl event := by
  cases event with
  | global name => exact iff_of_true (h.addSeat name) trivial
  | globalRemove name => exact iff_of_true (h.delSeat name) trivial
  | seatName name newName callback =>
    refine mapSeats_forall_iff fun seat hmem w => ?_
    unfold only
    split
    · rename_i hname
      rw [WlSeat.nameEvent_agrees_iff (h seat hmem)]
      exact ⟨fun hall _ => hall, fun hall => hall hname⟩
    · rename_i hname
      exact iff_of_true (h seat hmem) fun heq => absurd heq hname
  | dataOffer seat => exact iff_of_true (h.dataOffer seat) trivial
  | offer seat mimeType toplevel =>
    exact iff_of_true (h.offer config seat mimeType toplevel) trivial
  | selection name offer canSet timer receives =>
    exact iff_of_true (h.selection name offer canSet timer receives) trivial
  | finished seat => exact iff_of_true (h.finished seat) trivial
  | cancelled source => exact iff_of_true (h.cancelled source) trivial
  | nullTimer name ok result =>
    exact iff_of_true (h.onSeat (nullTimerOn_device _ _ _) name.1) trivial
  | lateTimer name fd => exact iff_of_true (h.lateTimer name fd) trivial
  | set ignore callback => exact iff_of_true (h.onSeats (setOn_device _ _)) trivial

end Agrees

/-- Throughout a session `enabled` says which seats have a data device if and only if no seat that
takes part is ever given a name that is not configured. -/
theorem agrees_throughout_iff (config : Config) (events : List WaylandEvent) :
    (∀ first, first <+: events → (run (step config) init first).Agrees) ↔
      Meets (step config) (Settles config) init events :=
  throughout_iff (I := fun _ => True) (P := Agrees) (fun _ _ _ => trivial)
    (fun _ event _ h => agrees_step_iff h config event) trivial
    (fun _ hmem => absurd hmem List.not_mem_nil)

end Wayland

/-! ## Requests on NULL -/

namespace Wire
variable {kind : ProxyKind} {w : Wire}

@[simp] theorem make_null (kind : ProxyKind) (w : Wire) :
    (w.make kind).2.nullRequest = w.nullRequest := rfl

@[simp] theorem use_some_null (o : Handle kind) (w : Wire) :
    (w.use (some o)).nullRequest = w.nullRequest := rfl

theorem use_null {o : Option (Handle kind)} (ho : o.isSome) (w : Wire) :
    (w.use o).nullRequest = w.nullRequest := by
  obtain ⟨o, rfl⟩ := Option.isSome_iff_exists.mp ho
  rfl

@[simp] theorem pass_null (o : Option (Handle kind)) (w : Wire) :
    (w.pass o).nullRequest = w.nullRequest := by
  cases o <;> rfl

@[simp] theorem destroy_null (o : Option (Handle kind)) (w : Wire) :
    (w.destroy o).nullRequest = w.nullRequest := by
  cases o <;> rfl

@[simp] theorem useEach_null (o : Handle kind) (n : ℕ) (w : Wire) :
    (w.useEach o n).nullRequest = w.nullRequest := by
  induction n generalizing w with
  | zero => rfl
  | succ n ih => exact ih (w.use (some o))

end Wire

namespace WlSelection
variable {device : Option (Handle .device)} {sel : WlSelection} {w : Wire}

theorem newSource_null (source : Option Source) (w : Wire) :
    (newSource source w).2.nullRequest = w.nullRequest := by
  cases source with
  | none => rfl
  | some source => exact Wire.useEach_null _ _ _

theorem selectionSet_null (hdevice : device.isSome) (result : SetResult) :
    (sel.selectionSet result device w).2.nullRequest = w.nullRequest ∧
      (sel.selectionSet result device w).1.nullTimerfd = sel.nullTimerfd := by
  have hnew := newSource_null result.1 w
  simp only [selectionSet]
  split
  · exact ⟨hnew, rfl⟩
  · rw [Wire.pass_null, Wire.use_null hdevice, Wire.destroy_null]
    exact ⟨hnew, rfl⟩

theorem nullTimerCallback_null (hdevice : device.isSome) (ok : Bool) (result : SetResult) :
    (sel.nullTimerCallback ok result device w).2.nullRequest = w.nullRequest := by
  simp only [nullTimerCallback, Wire.destroy_null]
  split
  · exact (selectionSet_null hdevice result).1
  · rfl

theorem selectionEvent_null (blocked canSet : Bool) (timer : TimerResult) (receives : ℕ)
    (offer : Option (Handle .offer)) :
    (sel.selectionEvent blocked canSet timer receives offer w).2.2.nullRequest =
      w.nullRequest := by
  simp only [selectionEvent]
  split
  · simp
  · split
    · simp
    · cases offer with
      | none =>
        dsimp only
        split
        · simp
        · cases timer <;> simp [armTimer]
      | some offer => simp

end WlSelection

namespace WlSeat

/-- A seat whose flag and whose timers keep to its data device. -/
structure Steady (seat : WlSeat) : Prop where
  agrees : seat.Agrees
  timers : ∀ type, (seat.sel type).nullTimerfd.isSome → seat.extDataDevice.isSome

theorem steady_of_device {seat : WlSeat} (henabled : seat.enabled = true)
    (hdevice : seat.extDataDevice.isSome) : seat.Steady :=
  ⟨henabled.trans hdevice.symm, fun _ _ => hdevice⟩

/-- A function of one seat that makes no request on NULL there. -/
def Safe (f : WlSeat → Wire → WlSeat × Wire) (seat : WlSeat) : Prop :=
  ∀ w, seat.Steady → w.nullRequest = false →
    (f seat w).1.Steady ∧ (f seat w).2.nullRequest = false

/-- A seat with a data device that it keeps is steady. -/
theorem Steady.keep {f : WlSeat → Wire → WlSeat × Wire} (hf : Wayland.KeepsDevice f)
    {seat : WlSeat} (h : seat.Steady) (hdevice : seat.extDataDevice.isSome) (w : Wire) :
    (f seat w).1.Steady := by
  obtain ⟨henabled, hkept⟩ := hf seat w
  exact steady_of_device (henabled.trans (h.agrees.trans hdevice))
    ((congrArg Option.isSome hkept).trans hdevice)

theorem setUnless_null {seat : WlSeat} (hdevice : seat.extDataDevice.isSome)
    (callback : SelectionName → SetResult) (ignore : Option SelectionName) (type : SelectionType)
    (w : Wire) : (seat.setUnless callback ignore type w).2.nullRequest = w.nullRequest := by
  unfold setUnless
  split
  · exact (WlSelection.selectionSet_null hdevice _).1
  · rfl

theorem seatSet_null {seat : WlSeat} (hdevice : seat.extDataDevice.isSome)
    (callback : SelectionName → SetResult) (ignore : Option SelectionName) (w : Wire) :
    (seat.seatSet callback ignore w).2.nullRequest = w.nullRequest := by
  have hkept := (seat.setUnless_device callback ignore .regular w).2
  exact (setUnless_null ((congrArg Option.isSome hkept).trans hdevice) callback ignore .primary
    _).trans (setUnless_null hdevice callback ignore .regular w)

theorem safe_setOn (ignore : Option SelectionName) (callback : SelectionName → SetResult)
    (seat : WlSeat) : Safe (Wayland.setOn ignore callback) seat := by
  intro w h hnull
  by_cases henabled : seat.enabled = true
  · have hdevice : seat.extDataDevice.isSome := h.agrees.symm.trans henabled
    refine ⟨h.keep (Wayland.setOn_device ignore callback) hdevice w, ?_⟩
    rw [Wayland.setOn, if_pos henabled, seatSet_null hdevice, hnull]
  · rw [Wayland.setOn, if_neg henabled]
    exact ⟨h, hnull⟩

theorem safe_nullTimerOn (type : SelectionType) (ok : Bool) (result : SetResult) (seat : WlSeat) :
    Safe (Wayland.nullTimerOn type ok result) seat := by
  intro w h hnull
  by_cases htimer : (seat.sel type).nullTimerfd.isSome
  · have hdevice := h.timers type htimer
    refine ⟨h.keep (Wayland.nullTimerOn_device type ok result) hdevice w, ?_⟩
    rw [Wayland.nullTimerOn, if_pos htimer]
    exact (WlSelection.nullTimerCallback_null hdevice ok result).trans hnull
  · rw [Wayland.nullTimerOn, if_neg htimer]
    exact ⟨h, hnull⟩

theorem safe_disarmOn (type : SelectionType) (seat : WlSeat) :
    Safe (Wayland.disarmOn type) seat := by
  intro w hsteady hnull
  refine ⟨⟨((Wayland.disarmOn_device type).agrees_iff seat w).mpr hsteady.agrees, fun t ht => ?_⟩,
    hnull⟩
  have hdevice : (Wayland.disarmOn type seat w).1.extDataDevice = seat.extDataDevice := by
    cases type <;> rfl
  rw [hdevice]
  refine hsteady.timers t ?_
  cases type <;> cases t <;> first | exact ht | cases ht

theorem safe_collect (g : Collected → Collected) (seat : WlSeat) :
    Safe (Wayland.collect g) seat :=
  fun _ h hnull => ⟨⟨h.agrees, h.timers⟩, hnull⟩

theorem safe_selectionOn {seat : WlSeat} (hdevice : seat.extDataDevice.isSome)
    (type : SelectionType) (offer : Option (Handle .offer)) (canSet : Bool) (timer : TimerResult)
    (receives : ℕ) : Safe (Wayland.selectionOn type offer canSet timer receives) seat := by
  intro w h hnull
  refine ⟨h.keep (Wayland.selectionOn_device type offer canSet timer receives) hdevice w, ?_⟩
  exact (WlSelection.selectionEvent_null ..).trans hnull

theorem safe_nameEvent {config : Config} {name : CString} {seat : WlSeat}
    (hsettled : seat.extDataDevice.isSome → (waylandSeatIsConfigured config name).1 = true)
    (callback : SelectionName → SetResult) : Safe (nameEvent config name callback) seat := by
  intro w h hnull
  have hagrees := (nameEvent_agrees_iff h.agrees config name callback w).mpr hsettled
  rw [← seatIsConfigured_fst config name seat.selRegular.enabled seat.selPrimary.enabled]
    at hsettled
  simp only [nameEvent] at hagrees ⊢
  cases hdevice : seat.extDataDevice with
  | some device =>
    have hsome : seat.extDataDevice.isSome := by rw [hdevice]; rfl
    rw [if_pos (hsettled hsome), seatStart, if_pos (by exact hsome)]
    exact ⟨steady_of_device (h.agrees.trans hsome) hsome, hnull⟩
  | none =>
    have hnone : ¬ seat.extDataDevice.isSome := by simp [hdevice]
    split at hagrees
    · rename_i hconfigured
      rw [if_pos hconfigured, seatStart, if_neg (by exact hnone)]
      obtain ⟨henabled, hkept⟩ := seatSet_device callback none
        { seat.renamed name _ _ with
          extDataDevice := some ((w.use (some seat.proxy)).make .device).1, enabled := true }
        ((w.use (some seat.proxy)).make .device).2
      refine ⟨steady_of_device henabled (congrArg Option.isSome hkept), ?_⟩
      exact (seatSet_null rfl callback none _).trans hnull
    · rename_i hconfigured
      rw [if_neg hconfigured, seatStop, if_pos (by simpa [renamed] using hdevice)]
      refine ⟨⟨h.agrees, fun type htimer => h.timers type ?_⟩, hnull⟩
      cases type <;> exact htimer

end WlSeat

namespace Wayland

/-- Every seat is steady, and no request has been made on NULL. -/
structure Sound (wl : Wayland) : Prop where
  steady : ∀ seat ∈ wl.seats, seat.Steady
  null : wl.wire.nullRequest = false

section Sound
variable {wl : Wayland} {f : WlSeat → Wire → WlSeat × Wire}

theorem mapSeats_safe {seats : List WlSeat} (hf : ∀ seat ∈ seats, WlSeat.Safe f seat) {w : Wire}
    (h : ∀ seat ∈ seats, seat.Steady) (hnull : w.nullRequest = false) :
    (∀ seat ∈ (mapSeats f seats w).1, seat.Steady) ∧
      (mapSeats f seats w).2.nullRequest = false := by
  induction seats generalizing w with
  | nil => exact ⟨h, hnull⟩
  | cons seat seats ih =>
    rw [List.forall_mem_cons] at h hf
    obtain ⟨hseat, hnull⟩ := hf.1 w h.1 hnull
    obtain ⟨hseats, hnull⟩ := ih hf.2 h.2 hnull
    exact ⟨List.forall_mem_cons.mpr ⟨hseat, hseats⟩, hnull⟩

theorem Sound.onSeats (h : wl.Sound) (hf : ∀ seat ∈ wl.seats, WlSeat.Safe f seat) :
    (wl.onSeats f).Sound := by
  obtain ⟨hsteady, hnull⟩ := mapSeats_safe hf h.steady h.null
  exact ⟨hsteady, hnull⟩

theorem Sound.onSeat (h : wl.Sound) {name : ℕ}
    (hf : ∀ seat ∈ wl.seats, seat.globalName = name → WlSeat.Safe f seat) :
    (wl.onSeat name f).Sound := by
  refine h.onSeats fun seat hmem w hsteady hnull => ?_
  unfold only
  split
  · rename_i hname
    exact hf seat hmem hname w hsteady hnull
  · exact ⟨hsteady, hnull⟩

/-- Names tell which seat an event of a data device is for. -/
theorem device_of_started {seats : List WlSeat} (hnamed : Named seats) {name : ℕ}
    (h : (seats.find? fun seat => seat.globalName = name).any
      (fun seat => seat.extDataDevice.isSome)) :
    ∀ seat ∈ seats, seat.globalName = name → seat.extDataDevice.isSome := by
  intro seat hmem hname
  obtain ⟨found, hfound, hdevice⟩ := (Option.any_eq_true _ _).mp h
  have hsame : found = seat := by
    refine List.inj_on_of_nodup_map hnamed (List.mem_of_find?_eq_some hfound) hmem ?_
    have hfoundName := List.find?_some hfound
    exact (of_decide_eq_true hfoundName).trans hname.symm
  exact hsame ▸ hdevice

theorem cancelIn_steady (source : Handle .source) {seats : List WlSeat}
    (h : ∀ seat ∈ seats, seat.Steady) : ∀ seat ∈ cancelIn source seats, seat.Steady := by
  have hkeep : ∀ sel : WlSelection, (sel.cancelled source).nullTimerfd = sel.nullTimerfd := by
    intro sel
    unfold WlSelection.cancelled
    split <;> rfl
  induction seats with
  | nil => exact h
  | cons seat seats ih =>
    rw [List.forall_mem_cons] at h
    unfold cancelIn
    split
    · refine List.forall_mem_cons.mpr ⟨⟨h.1.agrees, fun type htimer => h.1.timers type ?_⟩, h.2⟩
      cases type with
      | regular => exact (congrArg Option.isSome (hkeep _)).symm.trans htimer
      | primary => exact htimer
    · split
      · refine List.forall_mem_cons.mpr ⟨⟨h.1.agrees, fun type htimer => h.1.timers type ?_⟩, h.2⟩
        cases type with
        | regular => exact htimer
        | primary => exact (congrArg Option.isSome (hkeep _)).symm.trans htimer
      · exact List.forall_mem_cons.mpr ⟨h.1, ih h.2⟩

theorem delSeat_null (seat : WlSeat) (w : Wire) : (seat.delSeat w).nullRequest = w.nullRequest := by
  simp [WlSeat.delSeat, WlSeat.uninitSelections, WlSelection.uninit]

theorem Sound.delSeat (h : wl.Sound) (name : ℕ) : (wl.delSeat name).Sound := by
  unfold Wayland.delSeat
  cases wl.findSeat name with
  | none => exact h
  | some seat =>
    exact ⟨fun other hmem => h.steady other (List.mem_of_mem_eraseP hmem),
      (delSeat_null seat wl.wire).trans h.null⟩

/-- No event but a seat's new name can spoil this. -/
theorem Sound.step (h : wl.Sound) (hnamed : Named wl.seats) {config : Config}
    {event : WaylandEvent} (hsettled : Settles config wl event) :
    (wl.step config event).Sound := by
  cases event with
  | global name =>
    change (wl.addSeat name).Sound
    unfold addSeat
    split
    · exact h
    · refine ⟨fun seat hmem => ?_, h.null⟩
      rcases List.mem_cons.mp hmem with rfl | hmem
      · exact ⟨rfl, fun type => by cases type <;> exact id⟩
      · exact h.steady seat hmem
  | globalRemove name => exact h.delSeat name
  | seatName name newName callback =>
    exact h.onSeat fun seat hmem hname =>
      WlSeat.safe_nameEvent (hsettled seat hmem hname) callback
  | dataOffer seat =>
    change (wl.dataOffer seat).Sound
    unfold dataOffer
    split
    · have hmade : Sound { wl with
          offers := (seat, (wl.wire.make .offer).1) :: wl.offers
          wire := (wl.wire.make .offer).2 } := ⟨h.steady, h.null⟩
      exact hmade.onSeat fun seat _ _ => WlSeat.safe_collect _ seat
    · exact h
  | offer seat mimeType toplevel =>
    change (wl.offer config seat mimeType toplevel).Sound
    unfold offer
    split
    · exact h.onSeat fun seat _ _ => WlSeat.safe_collect _ seat
    · exact h
  | selection name offer canSet timer receives =>
    change (wl.selection name offer canSet timer receives).Sound
    unfold selection
    split
    · rename_i hguard
      have htaken : Sound { wl with
          offers := (offer.map fun o => wl.offers.erase (name.1, o)).getD wl.offers } :=
        ⟨h.steady, h.null⟩
      exact htaken.onSeat fun seat hmem hname =>
        WlSeat.safe_selectionOn (device_of_started hnamed hguard.1 seat hmem hname) _ _ _ _ _
    · exact h
  | finished seat =>
    change (wl.finished seat).Sound
    unfold finished
    split
    · exact h.delSeat seat
    · exact h
  | cancelled source =>
    change (wl.cancelled source).Sound
    unfold cancelled
    split
    · exact ⟨cancelIn_steady source h.steady, h.null⟩
    · exact h
  | nullTimer name ok result =>
    exact h.onSeat fun seat _ _ => WlSeat.safe_nullTimerOn name.2 ok result seat
  | lateTimer name fd =>
    change (wl.lateTimer name fd).Sound
    unfold lateTimer
    split
    · have hclosed : Sound { wl with wire := (wl.wire.use (some fd)).destroy (some fd) } :=
        ⟨h.steady, h.null⟩
      exact hclosed.onSeat fun seat _ _ => WlSeat.safe_disarmOn name.2 seat
    · exact h
  | set ignore callback => exact h.onSeats fun seat _ => WlSeat.safe_setOn ignore callback seat

end Sound

/-- As long as no seat that takes part is given a name that is not configured, no request is made
on a data device that is not there. -/
theorem no_nullRequest (config : Config) (events : List WaylandEvent)
    (h : Meets (step config) (Settles config) init events) :
    (run (step config) init events).wire.nullRequest = false := by
  have hsound := run_invariant (I := fun wl : Wayland => Named wl.seats ∧ wl.Sound)
    (fun wl event hwl hsettled => ⟨named_step hwl.1 config event, hwl.2.step hwl.1 hsettled⟩)
    ⟨Owned.init.named, ⟨fun _ hmem => absurd hmem List.not_mem_nil, rfl⟩⟩ h
  exact hsound.2.null

/-- A seat is announced and named, and then the clipboard is set on it. -/
def oneSeat : List WaylandEvent :=
  [.global 0, .seatName 0 seat0 fun _ => (none, false),
    .set none fun _ => (some ⟨[seat0], 1, fun _ => none⟩, false)]

theorem oneSeat_no_nullRequest : (run (step configInit) init oneSeat).wire.nullRequest = false :=
  no_nullRequest configInit oneSeat ⟨trivial, fun _ _ _ _ => rfl, trivial, trivial⟩

/-- A configuration in which only the first name is configured; after the second one a request is
made on NULL. -/
example :
    let config := { configInit with configuredSeats := [⟨some seat0, true, true⟩] }
    let other : CString := ⟨ascii ['s', 'e', 'a', 't', '1'], by decide⟩
    (run (step config) init [.global 0, .seatName 0 seat0 fun _ => (none, false),
      .seatName 0 other fun _ => (none, false), .set none fun _ => (none, true)]).wire.nullRequest =
        true := by
  decide +kernel

end Wayland

end Swayclip
