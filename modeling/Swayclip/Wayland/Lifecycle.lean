import Swayclip.Wayland.Objects

/-! # Every object in somebody's hands

Whatever the compositor sends and whatever the daemon sets, each object is held in exactly one
place from its creation to its destruction: by a seat, by one of its selections, or by the
compositor as an offer that is still to be selected. So no request reaches an object that has been
destroyed, none is destroyed twice, and none is forgotten. The one exception is a timer that
expires late.
-/

namespace Swayclip
open Library.Custody Library.Ledger Library.Runs

/-- What a pointer that may be NULL stands for. -/
def inHand {kind : ProxyKind} (o : Option (Handle kind)) : Multiset Proxy :=
  owned (o.map Handle.proxy)

@[simp] theorem inHand_none {kind : ProxyKind} : inHand (none : Option (Handle kind)) = 0 := rfl

@[simp] theorem inHand_some {kind : ProxyKind} (o : Handle kind) : inHand (some o) = {o.proxy} :=
  rfl

namespace Wire

/-- The requests are accounted for, and new objects will have new numbers. -/
structure Owns (w : Wire) (held : Multiset Proxy) : Prop where
  accounts : Accounts w.trace held
  fresh : ∀ o, .made o ∈ w.trace → o.number < w.next

section Owns
variable {w : Wire} {held : Multiset Proxy} {kind : ProxyKind}

theorem Owns.make (h : w.Owns held) (kind : ProxyKind) :
    (w.make kind).2.Owns (inHand (some (w.make kind).1) + held) := by
  constructor
  · exact h.accounts.make fun hmem => absurd (h.fresh _ hmem) (lt_irrefl _)
  · intro o ho
    rcases List.mem_append.mp ho with ho | ho
    · exact (h.fresh o ho).trans (Nat.lt_succ_self _)
    · rw [List.mem_singleton, Act.made.injEq] at ho
      rw [ho]
      exact Nat.lt_succ_self _

theorem Owns.use (h : w.Owns held) {o : Option (Handle kind)} (ho : ∀ i ∈ o, i.proxy ∈ held) :
    (w.use o).Owns held := by
  cases o with
  | none => exact ⟨h.accounts, h.fresh⟩
  | some o =>
    refine ⟨h.accounts.use (ho o rfl), fun i hi => h.fresh i ?_⟩
    simpa [Wire.use] using hi

theorem Owns.pass (h : w.Owns held) {o : Option (Handle kind)} (ho : ∀ i ∈ o, i.proxy ∈ held) :
    (w.pass o).Owns held := by
  cases o with
  | none => exact h
  | some o => exact h.use ho

theorem Owns.destroy {o : Option (Handle kind)} (h : w.Owns (inHand o + held)) :
    (w.destroy o).Owns held := by
  cases o with
  | none => simpa [Wire.destroy] using h
  | some o =>
    refine ⟨h.accounts.finish, fun i hi => h.fresh i ?_⟩
    simpa [Wire.destroy] using hi

theorem Owns.useEach (h : w.Owns held) {o : Handle kind} (ho : o.proxy ∈ held) (n : ℕ) :
    (w.useEach o n).Owns held := by
  induction n generalizing w with
  | zero => exact h
  | succ n ih => exact ih (h.use fun i hi => Option.some.inj hi ▸ ho)

end Owns

end Wire

namespace WlSelection

def held (sel : WlSelection) : Multiset Proxy :=
  inHand sel.extDataOffer + inHand (sel.extDataSource.map Prod.fst) + inHand sel.nullTimerfd

section Owns
variable {sel : WlSelection} {w : Wire} {rest : Multiset Proxy}

theorem uninit_owns (h : w.Owns (sel.held + rest)) :
    (sel.uninit w).2.Owns ((sel.uninit w).1.held + rest) := by
  have hnone : (sel.uninit w).1.held = 0 := rfl
  rw [hnone, zero_add]
  apply Wire.Owns.destroy
  apply Wire.Owns.destroy
  apply Wire.Owns.destroy
  convert h using 1
  rw [held]
  abel

theorem newSource_owns {held : Multiset Proxy} (h : w.Owns held) (source : Option Source) :
    (newSource source w).2.Owns (inHand ((newSource source w).1.map Prod.fst) + held) := by
  cases source with
  | none => simpa [newSource] using h
  | some source =>
    have hmade := (h.make .source).useEach
      (Multiset.mem_add.mpr (Or.inl (Multiset.mem_singleton_self _))) source.mimeTypes.length
    exact hmade

theorem newSource_isNone (source : Option Source) (w : Wire) :
    (newSource source w).1.isNone = source.isNone := by
  cases source <;> rfl

theorem selectionSet_owns (h : w.Owns (sel.held + rest)) {device : Option (Handle .device)}
    (hdevice : ∀ d ∈ device, d.proxy ∈ rest) (result : SetResult) :
    (sel.selectionSet result device w).2.Owns
      ((sel.selectionSet result device w).1.held + rest) := by
  have hnew := newSource_owns h result.1
  simp only [selectionSet]
  generalize newSource result.1 w = new at hnew ⊢
  obtain ⟨source, w'⟩ := new
  dsimp only at hnew ⊢
  split
  · -- nothing was created
    rename_i hkeep
    have hsource : source = none := by simpa using (Bool.and_eq_true_iff.mp hkeep).2
    subst hsource
    simpa using hnew
  · have hheld : w'.Owns (inHand (sel.extDataSource.map Prod.fst) +
        ({ sel with extDataSource := source }.held + rest)) := by
      convert hnew using 1
      simp only [held]
      abel
    refine (hheld.destroy.use fun d hd => Multiset.mem_add.mpr (Or.inr (hdevice d hd))).pass ?_
    intro o ho
    rw [Option.mem_def] at ho
    simp [held, ho]

theorem destroyTimer_owns (h : w.Owns (sel.held + rest)) :
    (w.destroy sel.nullTimerfd).Owns ({ sel with nullTimerfd := none }.held + rest) := by
  apply Wire.Owns.destroy
  convert h using 1
  simp only [held, inHand_none]
  abel

theorem nullTimerCallback_owns (h : w.Owns (sel.held + rest)) {device : Option (Handle .device)}
    (hdevice : ∀ d ∈ device, d.proxy ∈ rest) (ok : Bool) (result : SetResult) :
    (sel.nullTimerCallback ok result device w).2.Owns
      ((sel.nullTimerCallback ok result device w).1.held + rest) := by
  simp only [nullTimerCallback]
  split
  · exact destroyTimer_owns (selectionSet_owns h hdevice result)
  · exact destroyTimer_owns h

theorem armTimer_owns (h : w.Owns (sel.held + rest)) (hunset : sel.nullTimerfd = none)
    (timer : TimerResult) :
    (sel.armTimer timer w).2.Owns ((sel.armTimer timer w).1.held + rest) := by
  cases timer with
  | notCreated => exact h
  | notArmed => exact Wire.Owns.destroy (h.make .timer)
  | armed =>
    have hmade := h.make .timer
    generalize hfd : w.make .timer = fd at hmade
    simp only [armTimer, hfd]
    convert hmade using 1
    simp only [held, hunset, inHand_none]
    abel

/-- The offer of the event is in nobody's hands but the caller's. -/
theorem selectionEvent_owns {offer : Option (Handle .offer)}
    (h : w.Owns (inHand offer + (sel.held + rest))) (blocked canSet : Bool) (timer : TimerResult)
    (receives : ℕ) :
    (sel.selectionEvent blocked canSet timer receives offer w).2.2.Owns
      ((sel.selectionEvent blocked canSet timer receives offer w).2.1.held + rest) := by
  have hold : (w.destroy sel.extDataOffer).Owns
      (inHand offer + ({ sel with extDataOffer := none }.held + rest)) := by
    apply Wire.Owns.destroy
    convert h using 1
    simp only [held, inHand_none]
    abel
  have htaken : (w.destroy sel.extDataOffer).Owns ({ sel with extDataOffer := offer }.held + rest)
      := by
    convert hold using 1
    simp only [held, inHand_none]
    abel
  simp only [selectionEvent]
  split
  · exact h.destroy
  · split
    · exact hold.destroy
    · cases offer with
      | none =>
        dsimp only
        split
        · exact htaken
        · rename_i htimer
          have hunset : sel.nullTimerfd = none := by
            cases hfd : sel.nullTimerfd with
            | none => rfl
            | some fd => simp [hfd] at htimer
          exact armTimer_owns htaken hunset timer
      | some o => exact htaken.useEach (by simp [held]) receives

end Owns

end WlSelection

namespace WlSeat

def held (seat : WlSeat) : Multiset Proxy :=
  {seat.proxy.proxy} + inHand seat.extDataDevice + seat.selRegular.held + seat.selPrimary.held

/-- What the seat holds besides a selection. -/
def heldBeside (seat : WlSeat) : SelectionType → Multiset Proxy
  | .regular => {seat.proxy.proxy} + inHand seat.extDataDevice + seat.selPrimary.held
  | .primary => {seat.proxy.proxy} + inHand seat.extDataDevice + seat.selRegular.held

theorem held_eq (seat : WlSeat) (type : SelectionType) :
    seat.held = (seat.sel type).held + seat.heldBeside type := by
  cases type <;> simp only [held, sel, heldBeside] <;> abel

theorem setSel_held (seat : WlSeat) (type : SelectionType) (sel : WlSelection) :
    (seat.setSel type sel).held = sel.held + seat.heldBeside type := by
  cases type <;> simp only [held, setSel, heldBeside] <;> abel

theorem device_mem (seat : WlSeat) (type : SelectionType) (rest : Multiset Proxy) :
    ∀ d ∈ seat.extDataDevice, d.proxy ∈ seat.heldBeside type + rest := by
  intro d hd
  rw [Option.mem_def] at hd
  cases type <;> simp [heldBeside, hd]

section Owns
variable {seat : WlSeat} {w : Wire} {rest : Multiset Proxy}

/-- What is done to a selection is done to its seat. -/
theorem setSel_owns {w' : Wire} {type : SelectionType} {sel : WlSelection}
    (h : w.Owns (seat.held + rest))
    (hsel : w.Owns ((seat.sel type).held + (seat.heldBeside type + rest)) →
      w'.Owns (sel.held + (seat.heldBeside type + rest))) :
    w'.Owns ((seat.setSel type sel).held + rest) := by
  rw [setSel_held, add_assoc]
  apply hsel
  rwa [held_eq seat type, add_assoc] at h

theorem setUnless_owns (h : w.Owns (seat.held + rest)) (callback : SelectionName → SetResult)
    (ignore : Option SelectionName) (type : SelectionType) :
    (seat.setUnless callback ignore type w).2.Owns
      ((seat.setUnless callback ignore type w).1.held + rest) := by
  unfold setUnless
  split
  · exact setSel_owns h fun hsel =>
      WlSelection.selectionSet_owns hsel (seat.device_mem type rest) _
  · exact h

theorem seatSet_owns (h : w.Owns (seat.held + rest)) (callback : SelectionName → SetResult)
    (ignore : Option SelectionName) :
    (seat.seatSet callback ignore w).2.Owns ((seat.seatSet callback ignore w).1.held + rest) :=
  setUnless_owns (setUnless_owns h callback ignore .regular) callback ignore .primary

/-- A data device for a seat that has none. -/
theorem newDevice_owns (h : w.Owns (seat.held + rest)) (hnone : seat.extDataDevice = none) :
    ((w.use (some seat.proxy)).make .device).2.Owns
      ({ seat with
        extDataDevice := some ((w.use (some seat.proxy)).make .device).1
        enabled := true }.held + rest) := by
  have hproxy : ∀ i ∈ some seat.proxy, i.proxy ∈ seat.held + rest := by
    intro i hi
    rw [← Option.some.inj hi]
    simp [held]
  have hmade := (h.use hproxy).make .device
  generalize (w.use (some seat.proxy)).make .device = device at hmade ⊢
  convert hmade using 1
  simp only [held, hnone, inHand_none]
  abel

theorem seatStart_owns (h : w.Owns (seat.held + rest)) (callback : SelectionName → SetResult) :
    (seat.seatStart callback w).2.Owns ((seat.seatStart callback w).1.held + rest) := by
  unfold seatStart
  split
  · exact h
  · rename_i hdevice
    exact seatSet_owns (newDevice_owns h (by simpa using hdevice)) callback none

/-- Nothing is left in the selections. -/
theorem uninitSelections_owns (h : w.Owns (seat.held + rest)) :
    (seat.uninitSelections w).2.Owns ({seat.proxy.proxy} + inHand seat.extDataDevice + rest) := by
  have hregular : (seat.selRegular.uninit w).2.Owns
      (seat.selPrimary.held + ({seat.proxy.proxy} + inHand seat.extDataDevice + rest)) := by
    have hsel : w.Owns (seat.selRegular.held + (seat.heldBeside .regular + rest)) := by
      rwa [seat.held_eq .regular, add_assoc] at h
    have huninit := WlSelection.uninit_owns hsel
    rw [show (seat.selRegular.uninit w).1.held = 0 from rfl, zero_add] at huninit
    convert huninit using 1
    simp only [heldBeside]
    abel
  have hprimary := WlSelection.uninit_owns hregular
  rwa [show (seat.selPrimary.uninit (seat.selRegular.uninit w).2).1.held = 0 from rfl,
    zero_add] at hprimary

theorem seatStop_owns (h : w.Owns (seat.held + rest)) :
    (seat.seatStop w).2.Owns ((seat.seatStop w).1.held + rest) := by
  unfold seatStop
  split
  · exact h
  · apply Wire.Owns.destroy
    convert uninitSelections_owns h using 1
    change inHand seat.extDataDevice + ({seat.proxy.proxy} + 0 + 0 + 0 + rest) = _
    abel

theorem nameEvent_owns (h : w.Owns (seat.held + rest)) (config : Config) (name : CString)
    (callback : SelectionName → SetResult) :
    (seat.nameEvent config name callback w).2.Owns
      ((seat.nameEvent config name callback w).1.held + rest) := by
  have hrenamed : ∀ regular primary, w.Owns ((seat.renamed name regular primary).held + rest) :=
    fun _ _ => h
  simp only [nameEvent]
  split
  · exact seatStart_owns (hrenamed _ _) callback
  · exact seatStop_owns (hrenamed _ _)

theorem delSeat_owns (h : w.Owns (seat.held + rest)) : (seat.delSeat w).Owns rest := by
  have hleft := uninitSelections_owns h
  rw [add_assoc, ← inHand_some] at hleft
  exact hleft.destroy.destroy

end Owns

end WlSeat

namespace Wayland

def seatsHeld (seats : List WlSeat) : Multiset Proxy := (seats.map WlSeat.held).sum

def offersHeld (offers : List (ℕ × Handle .offer)) : Multiset Proxy :=
  ↑(offers.map fun offer => offer.2.proxy)

/-- Everything that has an owner. -/
def held (wl : Wayland) : Multiset Proxy := offersHeld wl.offers + seatsHeld wl.seats

/-- Global names tell the seats apart. -/
def Named (seats : List WlSeat) : Prop := (seats.map WlSeat.globalName).Nodup

structure Owned (wl : Wayland) : Prop where
  owns : wl.wire.Owns wl.held
  named : Named wl.seats

section Seats
variable {f : WlSeat → Wire → WlSeat × Wire} {seats : List WlSeat} {w : Wire}
  {rest extra : Multiset Proxy}

@[simp] theorem seatsHeld_cons (seat : WlSeat) (seats : List WlSeat) :
    seatsHeld (seat :: seats) = seat.held + seatsHeld seats := rfl

/-- What is done to each seat is done to all of them. -/
theorem mapSeats_owns (hf : ∀ seat ∈ seats, ∀ w rest, w.Owns (seat.held + rest) →
      (f seat w).2.Owns ((f seat w).1.held + rest))
    (h : w.Owns (seatsHeld seats + rest)) :
    (mapSeats f seats w).2.Owns (seatsHeld (mapSeats f seats w).1 + rest) := by
  induction seats generalizing w rest with
  | nil => exact h
  | cons seat seats ih =>
    rw [seatsHeld_cons, add_assoc] at h
    have hseat := hf seat List.mem_cons_self w _ h
    rw [add_left_comm] at hseat
    have hseats := ih (fun seat hmem => hf seat (List.mem_cons_of_mem _ hmem)) hseat
    simp only [mapSeats, seatsHeld_cons]
    rwa [add_left_comm, ← add_assoc] at hseats

theorem mapSeats_globalName (hf : ∀ seat w, (f seat w).1.globalName = seat.globalName)
    (seats : List WlSeat) (w : Wire) :
    (mapSeats f seats w).1.map WlSeat.globalName = seats.map WlSeat.globalName := by
  induction seats generalizing w with
  | nil => rfl
  | cons seat seats ih => simp only [mapSeats, List.map_cons, hf, ih]

/-- Seats of other names are left alone. -/
theorem mapSeats_of_ne {name : ℕ} (h : name ∉ seats.map WlSeat.globalName) (w : Wire) :
    mapSeats (only name f) seats w = (seats, w) := by
  induction seats with
  | nil => rfl
  | cons seat seats ih =>
    rw [List.map_cons, List.mem_cons, not_or] at h
    simp only [mapSeats, only, if_neg (Ne.symm h.1)]
    rw [ih h.2]

/-- One seat may take over what was nobody's before. -/
theorem mapSeats_takes {name : ℕ} (hnamed : Named seats)
    (hmem : name ∈ seats.map WlSeat.globalName)
    (hf : ∀ seat ∈ seats, ∀ w rest, w.Owns (extra + (seat.held + rest)) →
      (f seat w).2.Owns ((f seat w).1.held + rest))
    (h : w.Owns (extra + (seatsHeld seats + rest))) :
    (mapSeats (only name f) seats w).2.Owns
      (seatsHeld (mapSeats (only name f) seats w).1 + rest) := by
  induction seats generalizing rest with
  | nil => exact absurd hmem List.not_mem_nil
  | cons seat seats ih =>
    obtain ⟨hnot, hnamed⟩ := List.nodup_cons.mp hnamed
    rw [seatsHeld_cons, add_assoc] at h
    by_cases hname : seat.globalName = name
    · subst hname
      have hseat := hf seat List.mem_cons_self w _ h
      have hrest := mapSeats_of_ne (f := f) hnot
      simp only [mapSeats, only, if_true]
      rwa [hrest, seatsHeld_cons, add_assoc]
    · have hmem' : name ∈ seats.map WlSeat.globalName :=
        (List.mem_cons.mp hmem).resolve_left (Ne.symm hname)
      rw [add_left_comm seat.held] at h
      have hseats := ih hnamed hmem' (fun seat hmem => hf seat (List.mem_cons_of_mem _ hmem)) h
      simp only [mapSeats, only, if_neg hname, seatsHeld_cons]
      rwa [add_left_comm, ← add_assoc] at hseats

end Seats

section Owned
variable {wl : Wayland} {f : WlSeat → Wire → WlSeat × Wire}

/-- A function of one seat that keeps everything in somebody's hands. -/
structure Keeps (f : WlSeat → Wire → WlSeat × Wire) : Prop where
  owns : ∀ {seat : WlSeat} {w : Wire} {rest : Multiset Proxy}, w.Owns (seat.held + rest) →
    (f seat w).2.Owns ((f seat w).1.held + rest)
  globalName : ∀ seat w, (f seat w).1.globalName = seat.globalName

theorem Keeps.only (hf : Keeps f) (name : ℕ) : Keeps (only name f) := by
  constructor
  · intro seat w rest h
    unfold Wayland.only
    split
    · exact hf.owns h
    · exact h
  · intro seat w
    unfold Wayland.only
    split
    · exact hf.globalName seat w
    · rfl

theorem named_onSeats (hf : ∀ seat w, (f seat w).1.globalName = seat.globalName)
    (h : Named wl.seats) : Named (wl.onSeats f).seats := by
  change ((mapSeats f wl.seats wl.wire).1.map WlSeat.globalName).Nodup
  rwa [mapSeats_globalName hf]

theorem Owned.onSeats (h : wl.Owned) (hf : Keeps f) : (wl.onSeats f).Owned := by
  constructor
  · have howns := h.owns
    rw [held, add_comm] at howns
    have hseats := mapSeats_owns (f := f) (fun seat _ w rest => hf.owns) howns
    rwa [add_comm] at hseats
  · exact named_onSeats hf.globalName h.named

theorem Owned.onSeat (h : wl.Owned) (hf : Keeps f) (name : ℕ) : (wl.onSeat name f).Owned :=
  h.onSeats (hf.only name)

end Owned

/-! ## The functions of one seat -/

section Keeps

theorem setSel_globalName (seat : WlSeat) (type : SelectionType) (sel : WlSelection) :
    (seat.setSel type sel).globalName = seat.globalName := by
  cases type <;> rfl

theorem setUnless_globalName (callback : SelectionName → SetResult)
    (ignore : Option SelectionName) (type : SelectionType) (seat : WlSeat) (w : Wire) :
    (seat.setUnless callback ignore type w).1.globalName = seat.globalName := by
  unfold WlSeat.setUnless
  split
  · exact setSel_globalName seat type _
  · rfl

theorem seatSet_globalName (callback : SelectionName → SetResult)
    (ignore : Option SelectionName) (seat : WlSeat) (w : Wire) :
    (seat.seatSet callback ignore w).1.globalName = seat.globalName := by
  simp only [WlSeat.seatSet, setUnless_globalName]

theorem keeps_nameEvent (config : Config) (name : CString) (callback : SelectionName → SetResult) :
    Keeps (WlSeat.nameEvent config name callback) := by
  refine ⟨fun h => WlSeat.nameEvent_owns h config name callback, fun seat w => ?_⟩
  simp only [WlSeat.nameEvent]
  split
  · unfold WlSeat.seatStart
    split
    · rfl
    · exact seatSet_globalName callback none _ _
  · unfold WlSeat.seatStop
    split <;> rfl

theorem keeps_collect (g : Collected → Collected) : Keeps (collect g) :=
  ⟨id, fun _ _ => rfl⟩

theorem keeps_nullTimerOn (type : SelectionType) (ok : Bool) (result : SetResult) :
    Keeps (nullTimerOn type ok result) := by
  constructor
  · intro seat w rest h
    unfold nullTimerOn
    split
    · exact WlSeat.setSel_owns h fun hsel =>
        WlSelection.nullTimerCallback_owns hsel (seat.device_mem type rest) ok result
    · exact h
  · intro seat w
    unfold nullTimerOn
    split
    · exact setSel_globalName seat type _
    · rfl

theorem keeps_setOn (ignore : Option SelectionName) (callback : SelectionName → SetResult) :
    Keeps (setOn ignore callback) := by
  constructor
  · intro seat w rest h
    unfold setOn
    split
    · exact WlSeat.seatSet_owns h callback ignore
    · exact h
  · intro seat w
    unfold setOn
    split
    · exact seatSet_globalName callback ignore seat w
    · rfl

/-- A seat takes over the offer of a selection event. -/
theorem selectionOn_owns {type : SelectionType} {offer : Option (Handle .offer)} {seat : WlSeat}
    {w : Wire} {rest : Multiset Proxy} (h : w.Owns (inHand offer + (seat.held + rest)))
    (canSet : Bool) (timer : TimerResult) (receives : ℕ) :
    (selectionOn type offer canSet timer receives seat w).2.Owns
      ((selectionOn type offer canSet timer receives seat w).1.held + rest) := by
  have hsel : w.Owns (inHand offer + ((seat.sel type).held + (seat.heldBeside type + rest))) := by
    rwa [seat.held_eq type, add_assoc] at h
  have hevent := WlSelection.selectionEvent_owns hsel seat.blocked canSet timer receives
  rw [← add_assoc, ← WlSeat.setSel_held] at hevent
  simp only [selectionOn]
  split <;> exact hevent

theorem selectionOn_globalName (type : SelectionType) (offer : Option (Handle .offer))
    (canSet : Bool) (timer : TimerResult) (receives : ℕ) (seat : WlSeat) (w : Wire) :
    (selectionOn type offer canSet timer receives seat w).1.globalName = seat.globalName := by
  simp only [selectionOn]
  split <;> exact setSel_globalName seat type _

end Keeps

/-! ## The events -/

section Events
variable {wl : Wayland}

theorem findSeat_mem {name : ℕ} (h : (wl.findSeat name).isSome) :
    name ∈ wl.seats.map WlSeat.globalName := by
  obtain ⟨seat, hseat⟩ := Option.isSome_iff_exists.mp h
  have hname := List.find?_some hseat
  exact List.mem_map.mpr ⟨seat, List.mem_of_find?_eq_some hseat, by simpa using hname⟩

theorem named_addSeat (h : Named wl.seats) (name : ℕ) : Named (wl.addSeat name).seats := by
  unfold Wayland.addSeat
  split
  · exact h
  · rename_i hnone
    refine List.nodup_cons.mpr ⟨fun hmem => hnone ?_, h⟩
    obtain ⟨seat, hseat, hname⟩ := List.mem_map.mp hmem
    rw [findSeat, List.find?_isSome]
    exact ⟨seat, hseat, by simpa using hname⟩

theorem Owned.addSeat (h : wl.Owned) (name : ℕ) : (wl.addSeat name).Owned := by
  refine ⟨?_, named_addSeat h.named name⟩
  unfold Wayland.addSeat
  split
  · exact h.owns
  · have hmade := h.owns.make .seat
    convert hmade using 1
    simp only [held, seatsHeld_cons, WlSeat.held, WlSelection.held, WlSelection.init,
      Option.map_none, inHand_none, inHand_some]
    abel

theorem seatsHeld_eraseP {p : WlSeat → Bool} {seats : List WlSeat} {seat : WlSeat}
    (h : seats.find? p = some seat) :
    seatsHeld seats = seat.held + seatsHeld (seats.eraseP p) := by
  induction seats with
  | nil => cases h
  | cons first seats ih =>
    by_cases hp : p first
    · rw [List.find?_cons_of_pos hp] at h
      rw [List.eraseP_cons_of_pos hp, seatsHeld_cons, Option.some.inj h]
    · rw [List.find?_cons_of_neg hp] at h
      rw [List.eraseP_cons_of_neg hp, seatsHeld_cons, seatsHeld_cons, ih h, add_left_comm]

theorem named_delSeat (h : Named wl.seats) (name : ℕ) : Named (wl.delSeat name).seats := by
  unfold Wayland.delSeat
  cases wl.findSeat name with
  | none => exact h
  | some seat => exact h.sublist (List.eraseP_sublist.map _)

theorem Owned.delSeat (h : wl.Owned) (name : ℕ) : (wl.delSeat name).Owned := by
  refine ⟨?_, named_delSeat h.named name⟩
  unfold Wayland.delSeat
  cases hfind : wl.findSeat name with
  | none => exact h.owns
  | some seat =>
    have howns := h.owns
    rw [held, seatsHeld_eraseP hfind, add_left_comm] at howns
    exact WlSeat.delSeat_owns howns

theorem Owned.dataOffer (h : wl.Owned) (name : ℕ) : (wl.dataOffer name).Owned := by
  unfold Wayland.dataOffer
  split
  · have hmade : Owned { wl with
        offers := (name, (wl.wire.make .offer).1) :: wl.offers
        wire := (wl.wire.make .offer).2 } := by
      refine ⟨?_, h.named⟩
      have hmade := h.owns.make .offer
      rwa [held, ← add_assoc] at hmade
    exact hmade.onSeat (keeps_collect _) name
  · exact h

theorem Owned.selection (h : wl.Owned) (name : SelectionName) (offer : Option (Handle .offer))
    (canSet : Bool) (timer : TimerResult) (receives : ℕ) :
    (wl.selection name offer canSet timer receives).Owned := by
  unfold Wayland.selection
  split
  · rename_i hguard
    obtain ⟨hstarted, hoffer⟩ := hguard
    have hmem : name.1 ∈ wl.seats.map WlSeat.globalName := by
      refine findSeat_mem ?_
      rw [started] at hstarted
      cases hfind : wl.findSeat name.1 with
      | none => simp [hfind] at hstarted
      | some seat => rfl
    have hoffers : offersHeld wl.offers = inHand offer +
        offersHeld ((offer.map fun o => wl.offers.erase (name.1, o)).getD wl.offers) := by
      cases offer with
      | none => simp
      | some o =>
        have hperm := (List.perm_cons_erase (hoffer o rfl)).map fun offer => offer.2.proxy
        exact Multiset.coe_eq_coe.mpr hperm
    have howns := h.owns
    rw [held, hoffers, add_assoc, add_comm (offersHeld _)] at howns
    constructor
    · have htaken := mapSeats_takes (f := selectionOn name.2 offer canSet timer receives) h.named
        hmem (fun seat _ w rest h => selectionOn_owns h canSet timer receives) howns
      rwa [add_comm] at htaken
    · refine named_onSeats (fun seat w => ?_) h.named
      unfold only
      split
      · exact selectionOn_globalName _ _ _ _ _ _ _
      · rfl
  · exact h

/-- Kinds tell where an object may be. -/
theorem source_mem_held {source : Handle .source} {sel : WlSelection}
    (h : source.proxy ∈ sel.held) : sel.extDataSource.map Prod.fst = some source := by
  obtain ⟨enabled, offer, held, timer⟩ := sel
  rcases offer with - | ⟨offer⟩ <;> rcases timer with - | ⟨timer⟩ <;>
    rcases held with - | ⟨⟨held⟩, _⟩ <;> simp_all [WlSelection.held, Handle.proxy] <;>
    exact congrArg Handle.mk h.symm

theorem cancelled_held {source : Handle .source} {sel : WlSelection}
    (h : sel.extDataSource.map Prod.fst = some source) :
    sel.held = {source.proxy} + (sel.cancelled source).held := by
  rw [WlSelection.cancelled, if_pos h]
  simp only [WlSelection.held, h, Option.map_none, inHand_none, inHand_some]
  abel

theorem source_mem_seat {source : Handle .source} {seat : WlSeat} (h : source.proxy ∈ seat.held) :
    seat.selRegular.extDataSource.map Prod.fst = some source ∨
      seat.selPrimary.extDataSource.map Prod.fst = some source := by
  rw [WlSeat.held, Multiset.mem_add, Multiset.mem_add, Multiset.mem_add] at h
  rcases h with ((h | h) | h) | h
  · simp [Handle.proxy] at h
  · rcases hdevice : seat.extDataDevice with - | device
    · simp [hdevice] at h
    · simp [hdevice, Handle.proxy] at h
  · exact Or.inl (source_mem_held h)
  · exact Or.inr (source_mem_held h)

theorem cancelIn_held {source : Handle .source} {seats : List WlSeat}
    (h : source.proxy ∈ seatsHeld seats) :
    seatsHeld seats = {source.proxy} + seatsHeld (cancelIn source seats) := by
  induction seats with
  | nil => exact absurd h (Multiset.notMem_zero _)
  | cons seat seats ih =>
    unfold cancelIn
    split
    · rename_i hregular
      rw [seatsHeld_cons, seatsHeld_cons, WlSeat.held, cancelled_held hregular, WlSeat.held]
      abel
    · split
      · rename_i hprimary
        rw [seatsHeld_cons, seatsHeld_cons, WlSeat.held, cancelled_held hprimary, WlSeat.held]
        abel
      · rename_i hregular hprimary
        have hseat : source.proxy ∉ seat.held := fun hmem =>
          (source_mem_seat hmem).elim hregular hprimary
        rw [seatsHeld_cons, seatsHeld_cons,
          ih ((Multiset.mem_add.mp h).resolve_left hseat), add_left_comm]

theorem cancelIn_globalName (source : Handle .source) (seats : List WlSeat) :
    (cancelIn source seats).map WlSeat.globalName = seats.map WlSeat.globalName := by
  induction seats with
  | nil => rfl
  | cons seat seats ih =>
    unfold cancelIn
    split
    · rfl
    · split
      · rfl
      · rw [List.map_cons, List.map_cons, ih]

theorem Owned.cancelled (h : wl.Owned) (source : Handle .source) : (wl.cancelled source).Owned := by
  unfold Wayland.cancelled
  split
  · rename_i hlive
    have hmem : source.proxy ∈ seatsHeld wl.seats := by
      have hheld := (h.owns.accounts.accounted.mem _).mpr hlive
      refine (Multiset.mem_add.mp hheld).resolve_left fun hoffer => ?_
      obtain ⟨offer, -, hoffer⟩ := List.mem_map.mp (Multiset.mem_coe.mp hoffer)
      simp [Handle.proxy] at hoffer
    constructor
    · have howns := h.owns
      rw [held, cancelIn_held hmem, add_left_comm, ← inHand_some] at howns
      exact howns.destroy
    · rw [Named, cancelIn_globalName]
      exact h.named
  · exact h

theorem Owned.offer (h : wl.Owned) (config : Config) (name : ℕ) (mimeType : CString)
    (toplevel : Option MimeFilter) : (wl.offer config name mimeType toplevel).Owned := by
  unfold Wayland.offer
  split
  · exact h.onSeat (keeps_collect _) name
  · exact h

theorem Owned.finished (h : wl.Owned) (name : ℕ) : (wl.finished name).Owned := by
  unfold Wayland.finished
  split
  · exact h.delSeat name
  · exact h

/-- Whatever happens, global names tell the seats apart. -/
theorem named_step (h : Named wl.seats) (config : Config) (event : WaylandEvent) :
    Named (wl.step config event).seats := by
  have honSeat : ∀ {wl : Wayland} {name : ℕ} {f : WlSeat → Wire → WlSeat × Wire},
      (∀ seat w, (f seat w).1.globalName = seat.globalName) → Named wl.seats →
      Named (wl.onSeat name f).seats := by
    intro wl name f hf hwl
    refine named_onSeats (fun seat w => ?_) hwl
    unfold only
    split
    · exact hf seat w
    · rfl
  cases event with
  | global name => exact named_addSeat h name
  | globalRemove name => exact named_delSeat h name
  | seatName seat name callback => exact honSeat (keeps_nameEvent config name callback).globalName h
  | dataOffer seat =>
    change Named (wl.dataOffer seat).seats
    unfold Wayland.dataOffer
    split
    · exact honSeat (fun _ _ => rfl) h
    · exact h
  | offer seat mimeType toplevel =>
    change Named (wl.offer config seat mimeType toplevel).seats
    unfold Wayland.offer
    split
    · exact honSeat (fun _ _ => rfl) h
    · exact h
  | selection name offer canSet timer receives =>
    change Named (wl.selection name offer canSet timer receives).seats
    unfold Wayland.selection
    split
    · exact honSeat (selectionOn_globalName name.2 offer canSet timer receives) h
    · exact h
  | finished seat =>
    change Named (wl.finished seat).seats
    unfold Wayland.finished
    split
    · exact named_delSeat h seat
    · exact h
  | cancelled source =>
    change Named (wl.cancelled source).seats
    unfold Wayland.cancelled
    split
    · rwa [Named, cancelIn_globalName]
    · exact h
  | nullTimer name ok result => exact honSeat (keeps_nullTimerOn name.2 ok result).globalName h
  | lateTimer name fd =>
    change Named (wl.lateTimer name fd).seats
    unfold Wayland.lateTimer
    split
    · exact honSeat (fun seat _ => setSel_globalName seat name.2 _) h
    · exact h
  | set ignore callback => exact named_onSeats (keeps_setOn ignore callback).globalName h

/-- No timer expires after it has been closed. -/
def Timely (wl : Wayland) : WaylandEvent → Prop
  | .lateTimer _ fd => .ended fd.proxy ∉ wl.wire.trace
  | _ => True

/-- Each event that comes in time keeps every object in somebody's hands. -/
theorem Owned.step (h : wl.Owned) (config : Config) {event : WaylandEvent}
    (htimely : wl.Timely event) : (wl.step config event).Owned := by
  cases event with
  | global name => exact h.addSeat name
  | globalRemove name => exact h.delSeat name
  | seatName seat name callback => exact h.onSeat (keeps_nameEvent config name callback) seat
  | dataOffer seat => exact h.dataOffer seat
  | offer seat mimeType toplevel => exact h.offer config seat mimeType toplevel
  | selection name offer canSet timer receives => exact h.selection name offer canSet timer receives
  | finished seat => exact h.finished seat
  | cancelled source => exact h.cancelled source
  | nullTimer name ok result => exact h.onSeat (keeps_nullTimerOn name.2 ok result) name.1
  | lateTimer name fd =>
    have hstep : wl.step config (.lateTimer name fd) = wl := if_neg htimely
    rwa [hstep]
  | set ignore callback => exact h.onSeats (keeps_setOn ignore callback)

theorem Owned.init : Wayland.init.Owned :=
  ⟨⟨.nil, fun _ h => absurd h List.not_mem_nil⟩, List.nodup_nil⟩

/-- The seats are removed one after the other. -/
theorem delSeats_owns {seats : List WlSeat} {w : Wire} {rest : Multiset Proxy}
    (h : w.Owns (seatsHeld seats + rest)) :
    (seats.foldl (fun w seat => seat.delSeat w) w).Owns rest := by
  induction seats generalizing w with
  | nil => exact (zero_add rest) ▸ h
  | cons seat seats ih =>
    rw [seatsHeld_cons, add_assoc] at h
    exact ih (WlSeat.delSeat_owns h)

end Events

/-- No object is used before it is made or after it is destroyed, none is made or destroyed twice,
and those that are not destroyed are the ones that a seat, a selection or an announced offer stands
for. If the session ends here, only such offers are left over. -/
structure AllAccounted (wl : Wayland) : Prop where
  now : Accounted wl.wire.trace wl.held
  atExit : Accounted wl.uninit.wire.trace (offersHeld wl.offers)

theorem Owned.allAccounted {wl : Wayland} (h : wl.Owned) : wl.AllAccounted := by
  refine ⟨h.owns.accounts.accounted, Accounts.accounted (Wire.Owns.accounts ?_)⟩
  apply delSeats_owns
  rw [add_comm]
  exact h.owns

/-- Functions that make no request. -/
theorem mapSeats_wire {f : WlSeat → Wire → WlSeat × Wire} (hf : ∀ seat w, (f seat w).2 = w)
    (seats : List WlSeat) (w : Wire) : (mapSeats f seats w).2 = w := by
  induction seats generalizing w with
  | nil => rfl
  | cons seat seats ih => exact (ih _).trans (hf seat w)

theorem disarmOn_wire (name : SelectionName) (seat : WlSeat) (w : Wire) :
    (only name.1 (disarmOn name.2) seat w).2 = w := by
  unfold only
  split <;> rfl

/-- A timer that expires late is read and closed although it is closed already. -/
theorem allAccounted_step_iff {wl : Wayland} (h : wl.Owned) (config : Config)
    (event : WaylandEvent) : (wl.step config event).AllAccounted ↔ wl.Timely event := by
  constructor
  · intro haccounted
    cases event with
    | lateTimer name fd =>
      intro hended
      have htrace : (wl.step config (.lateTimer name fd)).wire.trace =
          wl.wire.trace ++ [.used fd.proxy] ++ [.ended fd.proxy] := by
        rw [Wayland.step, Wayland.lateTimer, if_pos hended]
        exact congrArg Wire.trace (mapSeats_wire (disarmOn_wire name) wl.seats _)
      have hnever := haccounted.now.never
      rw [htrace, List.append_assoc, neverAfter_append] at hnever
      exact hnever.2.2 _ hended _ List.mem_cons_self fd.proxy rfl rfl
    | _ => trivial
  · exact fun htimely => (h.step config htimely).allAccounted

/-- In a session, the objects are accounted for all along exactly if no timer expires late. -/
theorem objects_accounted_iff (config : Config) (events : List WaylandEvent) :
    (∀ first, first <+: events → (run (Wayland.step config) Wayland.init first).AllAccounted) ↔
      Meets (Wayland.step config) Timely Wayland.init events :=
  throughout_iff_of_kept (fun _ _ h htimely => Owned.step h config htimely)
    (fun _ event h => allAccounted_step_iff h config event) Owned.init Owned.init.allAccounted

end Wayland

end Swayclip
