import Mathlib.Tactic.Abel
import Swayclip.Daemon.Step
import Swayclip.Library.Custody

/-! # The objects of a seat

A seat consists of protocol objects: the seat itself, its data device, the offer and the source of
each selection, and a timer. The functions of the seat are given here with the requests that
create, use and destroy these objects; the requests are recorded. Events reach a protocol object
only while it exists, but a timer may be closed when its expiry is already on its way.
-/

namespace Swayclip
open Library.Custody Library.Runs

inductive ProxyKind where
  | seat
  | device
  | offer
  | source
  | timer
deriving DecidableEq

/-- An object on the wire, or the descriptor of a timer. -/
structure Proxy where
  kind : ProxyKind
  number : ℕ
deriving DecidableEq

/-- A pointer to an object of one kind. -/
structure Handle (kind : ProxyKind) where
  number : ℕ
deriving DecidableEq

def Handle.proxy {kind : ProxyKind} (o : Handle kind) : Proxy := ⟨kind, o.number⟩

/-- What has been requested. Numbers are handed out in order; `nullRequest` is set by a request on
a NULL pointer. -/
structure Wire where
  next : ℕ
  trace : List (Act Proxy)
  nullRequest : Bool

namespace Wire
variable {kind : ProxyKind}

def make (kind : ProxyKind) (w : Wire) : Handle kind × Wire :=
  (⟨w.next⟩, { w with next := w.next + 1, trace := w.trace ++ [.made ⟨kind, w.next⟩] })

def use (o : Option (Handle kind)) (w : Wire) : Wire :=
  match o with
  | none => { w with nullRequest := true }
  | some o => { w with trace := w.trace ++ [.used o.proxy] }

/-- An argument of a request, which may be NULL. -/
def pass (o : Option (Handle kind)) (w : Wire) : Wire :=
  match o with
  | none => w
  | some o => w.use (some o)

/-- Nothing is done for a NULL pointer. -/
def destroy (o : Option (Handle kind)) (w : Wire) : Wire :=
  match o with
  | none => w
  | some o => { w with trace := w.trace ++ [.ended o.proxy] }

/-- One request for each of some types. -/
def useEach (o : Handle kind) : ℕ → Wire → Wire
  | 0, w => w
  | n + 1, w => useEach o n (w.use (some o))

end Wire

inductive TimerResult where
  | notCreated
  | notArmed
  | armed
deriving DecidableEq

/-- `struct selection`. -/
structure WlSelection where
  enabled : Bool
  extDataOffer : Option (Handle .offer)
  extDataSource : Option (Handle .source × Source)
  nullTimerfd : Option (Handle .timer)
  created : ℕ

namespace WlSelection

def init : WlSelection := ⟨false, none, none, none, 0⟩

def uninit (sel : WlSelection) (w : Wire) : WlSelection × Wire :=
  ({ sel with extDataOffer := none, extDataSource := none, nullTimerfd := none },
    ((w.destroy sel.extDataOffer).destroy (sel.extDataSource.map Prod.fst)).destroy sel.nullTimerfd)

/-- The object that `wsignal_set` creates for a source; its types are offered one by one. -/
def newSource (source : Option Source) (w : Wire) : Option (Handle .source × Source) × Wire :=
  match source with
  | none => (none, w)
  | some source =>
    match w.make .source with
    | (proxy, w) => (some (proxy, source), w.useEach proxy source.mimeTypes.length)

/-- `selection_set`; the old source goes when there is a new one, or none. -/
def selectionSet (result : SetResult) (device : Option (Handle .device)) (sel : WlSelection)
    (w : Wire) : WlSelection × Wire :=
  match newSource result.1 w with
  | (source, w) =>
    if !result.2 && source.isNone then (sel, w)
    else ({ sel with
        extDataSource := source
        created := if source.isSome then sel.created + 1 else sel.created },
      ((w.destroy (sel.extDataSource.map Prod.fst)).use device).pass (source.map Prod.fst))

def nullTimerCallback (ok : Bool) (result : SetResult) (device : Option (Handle .device))
    (sel : WlSelection) (w : Wire) : WlSelection × Wire :=
  match (if ok && sel.extDataOffer.isNone then sel.selectionSet result device w else (sel, w)) with
  | (sel, w) => ({ sel with nullTimerfd := none }, w.destroy sel.nullTimerfd)

def armTimer (timer : TimerResult) (sel : WlSelection) (w : Wire) : WlSelection × Wire :=
  match timer with
  | .notCreated => (sel, w)
  | .notArmed =>
    match w.make .timer with
    | (fd, w) => (sel, w.destroy (some fd))
  | .armed =>
    match w.make .timer with
    | (fd, w) => ({ sel with nullTimerfd := some fd }, w)

/-- `selection_event`; `receives` is how many types are asked for. -/
def selectionEvent (blocked canSet : Bool) (timer : TimerResult) (receives : ℕ)
    (offer : Option (Handle .offer)) (sel : WlSelection) (w : Wire) : Bool × WlSelection × Wire :=
  if !sel.enabled then (false, sel, w.destroy offer)
  else
    let w := w.destroy sel.extDataOffer
    if sel.extDataSource.isSome || blocked then
      (false, { sel with extDataOffer := none }, w.destroy offer)
    else
      let sel := { sel with extDataOffer := offer }
      match offer with
      | none =>
        if sel.nullTimerfd.isSome || !canSet then (false, sel, w)
        else (false, sel.armTimer timer w)
      | some offer => (true, sel, w.useEach offer receives)

def cancelled (proxy : Handle .source) (sel : WlSelection) : WlSelection :=
  if sel.extDataSource.map Prod.fst = some proxy then { sel with extDataSource := none } else sel

end WlSelection

/-- `struct seat`. -/
structure WlSeat extends Collected where
  globalName : ℕ
  enabled : Bool
  proxy : Handle .seat
  name : Option CString
  extDataDevice : Option (Handle .device)
  selRegular : WlSelection
  selPrimary : WlSelection

namespace WlSeat

def sel (seat : WlSeat) : SelectionType → WlSelection
  | .regular => seat.selRegular
  | .primary => seat.selPrimary

def setSel (seat : WlSeat) (type : SelectionType) (sel : WlSelection) : WlSeat :=
  match type with
  | .regular => { seat with selRegular := sel }
  | .primary => { seat with selPrimary := sel }

def setUnless (callback : SelectionName → SetResult) (ignore : Option SelectionName)
    (type : SelectionType) (seat : WlSeat) (w : Wire) : WlSeat × Wire :=
  if (seat.sel type).enabled ∧ ignore ≠ some (seat.globalName, type) then
    match (seat.sel type).selectionSet (callback (seat.globalName, type)) seat.extDataDevice w with
    | (sel, w) => (seat.setSel type sel, w)
  else (seat, w)

def seatSet (callback : SelectionName → SetResult) (ignore : Option SelectionName)
    (seat : WlSeat) (w : Wire) : WlSeat × Wire :=
  match seat.setUnless callback ignore .regular w with
  | (seat, w) => seat.setUnless callback ignore .primary w

def seatStart (callback : SelectionName → SetResult) (seat : WlSeat) (w : Wire) : WlSeat × Wire :=
  if seat.extDataDevice.isSome then (seat, w)
  else
    match (w.use (some seat.proxy)).make .device with
    | (device, w) =>
      seatSet callback none { seat with extDataDevice := some device, enabled := true } w

def uninitSelections (seat : WlSeat) (w : Wire) : WlSeat × Wire :=
  match seat.selRegular.uninit w with
  | (regular, w) =>
    match seat.selPrimary.uninit w with
    | (primary, w) => ({ seat with selRegular := regular, selPrimary := primary }, w)

/-- `seat_stop`, which leaves `enabled` as it is. -/
def seatStop (seat : WlSeat) (w : Wire) : WlSeat × Wire :=
  if seat.extDataDevice.isNone then (seat, w)
  else
    match seat.uninitSelections w with
    | (seat, w) =>
      ({ seat with extDataDevice := none, mimeTypes := [] }, w.destroy seat.extDataDevice)

end WlSeat

/-- The loop of `wayland_seat_is_configured`; flags that it does not write stay as they are. -/
def seatIsConfiguredIn (name : CString) : List ConfigSeat → Bool → Bool → Bool × Bool × Bool
  | [], regular, primary => (false, regular, primary)
  | c :: seats, regular, primary =>
    if c.name = none ∨ c.name = some name then
      if c.regular || c.primary then (true, c.regular, c.primary)
      else seatIsConfiguredIn name seats c.regular c.primary
    else seatIsConfiguredIn name seats regular primary

/-- `wayland_seat_is_configured` with the flags that it is given to write. -/
def seatIsConfigured (config : Config) (name : CString) (regular primary : Bool) :
    Bool × Bool × Bool :=
  if config.configuredSeats.length = 0 then (true, config.regular, config.primary)
  else seatIsConfiguredIn name config.configuredSeats regular primary

namespace WlSeat

def renamed (name : CString) (regular primary : Bool) (seat : WlSeat) : WlSeat :=
  { seat with
    name := some name
    selRegular := { seat.selRegular with enabled := regular }
    selPrimary := { seat.selPrimary with enabled := primary } }

def nameEvent (config : Config) (name : CString) (callback : SelectionName → SetResult)
    (seat : WlSeat) (w : Wire) : WlSeat × Wire :=
  match seatIsConfigured config name seat.selRegular.enabled seat.selPrimary.enabled with
  | (configured, regular, primary) =>
    if configured then (seat.renamed name regular primary).seatStart callback w
    else (seat.renamed name regular primary).seatStop w

def delSeat (seat : WlSeat) (w : Wire) : Wire :=
  match seat.uninitSelections w with
  | (seat, w) => (w.destroy (some seat.proxy)).destroy seat.extDataDevice

end WlSeat

/-- `struct wayland`. The offers that were announced to a seat and are not the subject of a
selection event yet are kept by the compositor. -/
structure Wayland where
  seats : List WlSeat
  offers : List (ℕ × Handle .offer)
  wire : Wire

/-- What the compositor reports, and the daemon's call of `wayland_set`. -/
inductive WaylandEvent where
  | global (name : ℕ)
  | globalRemove (name : ℕ)
  | seatName (seat : ℕ) (name : CString) (callback : SelectionName → SetResult)
  | dataOffer (seat : ℕ)
  | offer (seat : ℕ) (mimeType : CString) (toplevel : Option MimeFilter)
  | selection (name : SelectionName) (offer : Option (Handle .offer)) (canSet : Bool)
      (timer : TimerResult) (receives : ℕ)
  | finished (seat : ℕ)
  | cancelled (source : Handle .source)
  | nullTimer (name : SelectionName) (ok : Bool) (result : SetResult)
  | lateTimer (name : SelectionName) (fd : Handle .timer)
  | set (ignore : Option SelectionName) (callback : SelectionName → SetResult)

namespace Wayland

/-- After `wayland_init`. -/
def init : Wayland := ⟨[], [], ⟨0, [], false⟩⟩

def mapSeats (f : WlSeat → Wire → WlSeat × Wire) : List WlSeat → Wire → List WlSeat × Wire
  | [], w => ([], w)
  | seat :: seats, w =>
    match f seat w with
    | (seat, w) =>
      match mapSeats f seats w with
      | (seats, w) => (seat :: seats, w)

def onSeats (f : WlSeat → Wire → WlSeat × Wire) (wl : Wayland) : Wayland :=
  match mapSeats f wl.seats wl.wire with
  | (seats, wire) => { wl with seats := seats, wire := wire }

def only (name : ℕ) (f : WlSeat → Wire → WlSeat × Wire) (seat : WlSeat) (w : Wire) :
    WlSeat × Wire :=
  if seat.globalName = name then f seat w else (seat, w)

def onSeat (name : ℕ) (f : WlSeat → Wire → WlSeat × Wire) (wl : Wayland) : Wayland :=
  wl.onSeats (only name f)

def findSeat (name : ℕ) (wl : Wayland) : Option WlSeat :=
  wl.seats.find? (fun seat => seat.globalName = name)

/-- The events of a data device need one. -/
def started (name : ℕ) (wl : Wayland) : Bool :=
  (wl.findSeat name).any (fun seat => seat.extDataDevice.isSome)

/-- `wayland_add_seat`; global names of live objects are unique. -/
def addSeat (name : ℕ) (wl : Wayland) : Wayland :=
  if (wl.findSeat name).isSome then wl
  else
    match wl.wire.make .seat with
    | (proxy, wire) =>
      { wl with
        seats := ⟨⟨[], false, false⟩, name, false, proxy, none, none, .init, .init⟩ :: wl.seats
        wire := wire }

/-- `registry_event_global_remove`. -/
def delSeat (name : ℕ) (wl : Wayland) : Wayland :=
  match wl.findSeat name with
  | none => wl
  | some seat =>
    { wl with
      seats := wl.seats.eraseP (fun seat => seat.globalName = name)
      wire := seat.delSeat wl.wire }

def collect (f : Collected → Collected) (seat : WlSeat) (w : Wire) : WlSeat × Wire :=
  ({ seat with toCollected := f seat.toCollected }, w)

/-- `data_device_event_data_offer` with the object that it introduces. -/
def dataOffer (name : ℕ) (wl : Wayland) : Wayland :=
  if wl.started name then
    match wl.wire.make .offer with
    | (offer, wire) =>
      { wl with offers := (name, offer) :: wl.offers, wire := wire }.onSeat name
        (collect fun _ => dataDeviceEventDataOffer)
  else wl

/-- `data_offer_event_offer`. -/
def offer (config : Config) (name : ℕ) (mimeType : CString) (toplevel : Option MimeFilter)
    (wl : Wayland) : Wayland :=
  if wl.started name then
    wl.onSeat name (collect (dataOfferEventOffer config.toMimeFilter toplevel mimeType))
  else wl

def selectionOn (type : SelectionType) (offer : Option (Handle .offer)) (canSet : Bool)
    (timer : TimerResult) (receives : ℕ) (seat : WlSeat) (w : Wire) : WlSeat × Wire :=
  match (seat.sel type).selectionEvent seat.blocked canSet timer receives offer w with
  | (deliver, sel, w) =>
    (if deliver then { seat.setSel type sel with mimeTypes := [] } else seat.setSel type sel, w)

/-- `data_device_event_selection` and its sibling, for an offer that was announced. -/
def selection (name : SelectionName) (offer : Option (Handle .offer)) (canSet : Bool)
    (timer : TimerResult) (receives : ℕ) (wl : Wayland) : Wayland :=
  if wl.started name.1 ∧ ∀ o ∈ offer, (name.1, o) ∈ wl.offers then
    { wl with offers := (offer.map fun o => wl.offers.erase (name.1, o)).getD wl.offers }.onSeat
      name.1 (selectionOn name.2 offer canSet timer receives)
  else wl

def finished (name : ℕ) (wl : Wayland) : Wayland := if wl.started name then wl.delSeat name else wl

/-- The selection that listens to a source is the one that holds it. -/
def cancelIn (source : Handle .source) : List WlSeat → List WlSeat
  | [] => []
  | seat :: seats =>
    if seat.selRegular.extDataSource.map Prod.fst = some source then
      { seat with selRegular := seat.selRegular.cancelled source } :: seats
    else if seat.selPrimary.extDataSource.map Prod.fst = some source then
      { seat with selPrimary := seat.selPrimary.cancelled source } :: seats
    else seat :: cancelIn source seats

/-- `data_source_event_cancelled`, for a source that has not been destroyed. -/
def cancelled (source : Handle .source) (wl : Wayland) : Wayland :=
  if .made source.proxy ∈ wl.wire.trace ∧ .ended source.proxy ∉ wl.wire.trace then
    { wl with seats := cancelIn source wl.seats, wire := wl.wire.destroy (some source) }
  else wl

/-- Only an armed timer expires. -/
def nullTimerOn (type : SelectionType) (ok : Bool) (result : SetResult) (seat : WlSeat)
    (w : Wire) : WlSeat × Wire :=
  if (seat.sel type).nullTimerfd.isSome then
    match (seat.sel type).nullTimerCallback ok result seat.extDataDevice w with
    | (sel, w) => (seat.setSel type sel, w)
  else (seat, w)

def nullTimer (name : SelectionName) (ok : Bool) (result : SetResult) (wl : Wayland) : Wayland :=
  wl.onSeat name.1 (nullTimerOn name.2 ok result)

def disarmOn (type : SelectionType) (seat : WlSeat) (w : Wire) : WlSeat × Wire :=
  (seat.setSel type { seat.sel type with nullTimerfd := none }, w)

/-- `null_timer_callback` for a timer that `selection_uninit` has closed after the event loop had
fetched its expiry. The read of the descriptor fails, and it is closed again; what is written to a
selection that was freed is not kept. -/
def lateTimer (name : SelectionName) (fd : Handle .timer) (wl : Wayland) : Wayland :=
  if .ended fd.proxy ∈ wl.wire.trace then
    { wl with wire := (wl.wire.use (some fd)).destroy (some fd) }.onSeat name.1 (disarmOn name.2)
  else wl

def setOn (ignore : Option SelectionName) (callback : SelectionName → SetResult) (seat : WlSeat)
    (w : Wire) : WlSeat × Wire :=
  if seat.enabled then seat.seatSet callback ignore w else (seat, w)

def set (ignore : Option SelectionName) (callback : SelectionName → SetResult) (wl : Wayland) :
    Wayland :=
  wl.onSeats (setOn ignore callback)

def step (config : Config) (wl : Wayland) : WaylandEvent → Wayland
  | .global name => wl.addSeat name
  | .globalRemove name => wl.delSeat name
  | .seatName seat name callback => wl.onSeat seat (WlSeat.nameEvent config name callback)
  | .dataOffer seat => wl.dataOffer seat
  | .offer seat mimeType toplevel => wl.offer config seat mimeType toplevel
  | .selection name offer canSet timer receives => wl.selection name offer canSet timer receives
  | .finished seat => wl.finished seat
  | .cancelled source => wl.cancelled source
  | .nullTimer name ok result => wl.nullTimer name ok result
  | .lateTimer name fd => wl.lateTimer name fd
  | .set ignore callback => wl.set ignore callback

/-- `wayland_uninit`. -/
def uninit (wl : Wayland) : Wayland :=
  { wl with seats := [], wire := wl.seats.foldl (fun w seat => seat.delSeat w) wl.wire }

end Wayland

end Swayclip
