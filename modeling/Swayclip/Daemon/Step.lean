import Swayclip.Daemon.Requests
import Swayclip.Daemon.Selection
import Swayclip.Library.Runs

/-! # The event loop

One step handles one event that the daemon receives: from the compositor, from a timer,
from an IPC client, or a restart. Everything reachable is reached by such steps from a
fresh start.
-/

namespace Swayclip
open Library.Runs

/-- What the daemon can be woken up by. `selection` carries, for a non-NULL offer, what its
client writes for the `i`-th type received from it. -/
inductive Event where
  | restart (config : Config)
  | addSeat (globalName : ℕ) (name : CString)
  | removeSeat (globalName : ℕ)
  | dataOffer (seat : ℕ)
  | offer (seat : ℕ) (mimeType : CString)
  | selection (name : SelectionName) (offer : Option (ℕ → Option Bytes)) (timerOk : Bool)
  | cancelled (name : SelectionName) (current : Bool)
  | nullTimer (name : SelectionName) (ok : Bool)
  | toplevel (tp : Option MimeFilter)
  | connect (fd : ℕ)
  | disconnect (fd : ℕ)
  | message (fd : ℕ) (msg : Option Request)

/-- An event with what its handlers find outside; only held requests need more than one. -/
structure Input where
  event : Event
  ambient : ℕ → Ambient

def waylandSeatIsConfigured (config : Config) (name : CString) : Bool × Bool × Bool :=
  if config.configuredSeats.length = 0 then (true, config.regular, config.primary)
  else
    let named := config.configuredSeats.filter (fun c => c.name = none ∨ c.name = some name)
    match named.find? (fun c => c.regular || c.primary) with
    | some c => (true, c.regular, c.primary)
    | none => (false, false, false)

/-- A seat after `wayland_add_seat` and its `name` event, before its selections are set. -/
def newSeat (config : Config) (globalName : ℕ) (name : CString) : Seat :=
  let (configured, regular, primary) := waylandSeatIsConfigured config name
  { mimeTypes := [], blocked := false, transient := false
    globalName := globalName
    enabled := configured
    selRegular := ⟨regular, false, none, false, 0⟩
    selPrimary := ⟨primary, false, none, false, 0⟩ }

namespace State

/-- Opening the database and setting up the state, as `main` does. The file is only opened
when the history persists. The list `transient` is taken as empty, although `main` leaves it
uninitialised. -/
def startup (config : Config) (a : Ambient) (disk : Tables) : State :=
  let db := databaseInit (a.sql .trim 0) config.maxEntries
    (if config.persist then disk else Tables.empty)
  { config := config
    db := db
    disk := disk
    ipc := []
    seats := []
    activeToplevel := none
    id := if config.setOnStartup then (databaseGetSetting (a.sql .getSetting 0) db).getD (-1)
      else -1
    cleared := false
    transient := [] }

/-- What the next session finds in the file. -/
def file (s : State) : Tables := if s.config.persist then s.db.committed else s.disk

def findSeat (s : State) (globalName : ℕ) : Option Seat :=
  s.seats.find? (fun seat => seat.globalName = globalName)

def findClient (s : State) (fd : ℕ) : Option Client :=
  s.ipc.find? (fun client => client.fd = fd)

def putSeat (seat : Seat) (s : State) : State :=
  { s with seats := s.seats.map (fun other =>
      if other.globalName = seat.globalName then seat else other) }

/-- `seat_clear_mime_types` on a seat. -/
def clearMimeTypes (globalName : ℕ) (s : State) : State :=
  { s with seats := s.seats.map (fun seat =>
      if seat.globalName = globalName then seatClearMimeTypes seat else seat) }

/-- Act on a seat that has a data device; others receive no events. -/
def onSeat (globalName : ℕ) (f : Seat → State → State) (s : State) : State :=
  match s.findSeat globalName with
  | none => s
  | some seat => if seat.enabled then f seat s else s

/-- Global names of live objects are unique. -/
def addSeat (a : Ambient) (globalName : ℕ) (name : CString) (s : State) : State :=
  match s.findSeat globalName with
  | some _ => s
  | none =>
    let seat := newSeat s.config globalName name
    let seat := if seat.enabled then seatSet (s.setCallback a.sql) none seat else seat
    { s with seats := seat :: s.seats }

def dataOffer (seat : Seat) (s : State) : State :=
  s.putSeat { seat with toCollected := dataDeviceEventDataOffer }

def offer (mimeType : CString) (seat : Seat) (s : State) : State :=
  let collected := dataOfferEventOffer s.config.toMimeFilter s.activeToplevel mimeType
    seat.toCollected
  s.putSeat { seat with toCollected := collected }

/-- `data_device_event_selection` and its sibling. The types are cleared after the
callback. -/
def selection (a : Ambient) (type : SelectionType) (offer : Option (ℕ → Option Bytes))
    (timerOk : Bool) (seat : Seat) (s : State) : State :=
  let (deliver, sel) := selectionEvent seat.blocked offer.isSome s.wsignalCanSet timerOk
    (seat.sel type)
  let s := s.putSeat (seat.setSel type sel)
  match deliver, offer with
  | true, some written =>
    (s.wsignalSelection a (seat.globalName, type) written seat.mimeTypes
      seat.transient).clearMimeTypes seat.globalName
  | _, _ => s

def cancelled (type : SelectionType) (current : Bool) (seat : Seat) (s : State) : State :=
  s.putSeat (seat.setSel type (dataSourceEventCancelled current (seat.sel type)))

/-- The expiry of an armed timer. A callback that is late finds its descriptor closed, and sets
nothing. -/
def nullTimer (a : Ambient) (type : SelectionType) (ok : Bool) (seat : Seat) (s : State) : State :=
  if (seat.sel type).nullTimer then
    s.putSeat (seat.setSel type (nullTimerCallback ok
      (s.setCallback a.sql (seat.globalName, type)) (seat.sel type)))
  else s

/-- A descriptor in use is not handed out again. -/
def connect (fd : ℕ) (s : State) : State :=
  match s.findClient fd with
  | some _ => s
  | none => { s with ipc := ipcAddClient fd :: s.ipc }

def handle (ambient : ℕ → Ambient) (event : Event) (s : State) : State :=
  match event with
  | .restart config => startup config (ambient 0) s.file
  | .addSeat globalName name => s.addSeat (ambient 0) globalName name
  | .removeSeat globalName =>
    { s with seats := s.seats.filter (fun seat => seat.globalName ≠ globalName) }
  | .dataOffer globalName => s.onSeat globalName dataOffer
  | .offer globalName mimeType => s.onSeat globalName (offer mimeType)
  | .selection name offer timerOk =>
    s.onSeat name.1 (selection (ambient 0) name.2 offer timerOk)
  | .cancelled name current => s.onSeat name.1 (cancelled name.2 current)
  | .nullTimer name ok => s.onSeat name.1 (nullTimer (ambient 0) name.2 ok)
  | .toplevel tp => { s with activeToplevel := tp }
  | .connect fd => s.connect fd
  | .disconnect fd => { s with ipc := s.ipc.filter (fun client => client.fd ≠ fd) }
  | .message fd msg =>
    match s.findClient fd with
    | none => s
    | some client => s.messageCallback ambient client msg

end State

def step (s : State) (i : Input) : State := s.handle i.ambient i.event

/-- An event that nothing outside disturbs. -/
def Input.quiet (event : Event) : Input := ⟨event, fun _ => .quiet 0⟩

/-- The events that introduce an offer and its types on a seat. -/
def offerEvents (seat : ℕ) (offered : List CString) : List Input :=
  .quiet (.dataOffer seat) :: offered.map (fun m => .quiet (.offer seat m))

/-- What the compositor sends when a client sets a selection: the offer with its types, and
then the selection event, in which each type yields its data. -/
def copy (name : SelectionName) (content : List (CString × Bytes)) : List Input :=
  offerEvents name.1 (content.map Prod.fst) ++
    [.quiet (.selection name (some fun i => content[i]?.map Prod.snd) true)]

def gone (name : SelectionName) : Input := .quiet (.selection name none true)

def boot (config : Config) (a : Ambient) : State := State.startup config a Tables.empty

def seat0 : CString := ⟨ascii ['s', 'e', 'a', 't', '0'], by decide⟩

/-- A first session once the compositor has announced one seat. -/
def firstSession (config : Config) : State :=
  step (boot config (.quiet 0)) (.quiet (.addSeat 0 seat0))

/-- A state that some run reaches. -/
def Reachable (s : State) : Prop :=
  ∃ config a inputs, s = run step (boot config a) inputs

theorem Reachable.boot (config : Config) (a : Ambient) : Reachable (boot config a) :=
  ⟨config, a, [], rfl⟩

theorem Reachable.step {s : State} (h : Reachable s) (i : Input) : Reachable (step s i) := by
  obtain ⟨config, a, inputs, rfl⟩ := h
  exact ⟨config, a, inputs ++ [i], by rw [run_append, run_cons, run_nil]⟩

theorem Reachable.run {s : State} (h : Reachable s) (inputs : List Input) :
    Reachable (run Swayclip.step s inputs) := by
  induction inputs generalizing s with
  | nil => exact h
  | cons i inputs ih => exact ih (h.step i)

theorem firstSession_reachable (config : Config) : Reachable (firstSession config) :=
  (Reachable.boot config (.quiet 0)).step _

/-- Induction over the run that leads to a state. -/
theorem Reachable.induction {P : State → Prop} (hboot : ∀ config a, P (Swayclip.boot config a))
    (hstep : ∀ s i, P s → P (Swayclip.step s i)) {s : State} (h : Reachable s) : P s := by
  obtain ⟨config, a, inputs, rfl⟩ := h
  exact run_invariant (C := fun _ _ => True) (fun s i hs _ => hstep s i hs) (hboot config a)
    (Meets.of_mem fun _ _ _ => trivial)

end Swayclip
