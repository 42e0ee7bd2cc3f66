import Swayclip.Database.Calls
import Swayclip.Ipc.Client
import Swayclip.Wayland.Seat

/-! # The state of the daemon

One record holds what `struct state` reaches: the configuration, the database, the IPC
clients, the seats and the current entry. The handlers are functions on it. What a
handler obtains from outside (time, outcomes of statements and of descriptor calls)
comes as an argument.
-/

namespace Swayclip

inductive Dedup where
  | none
  | prev
  | all
deriving DecidableEq

structure ConfigSeat where
  name : Option CString
  regular : Bool
  primary : Bool

/-- `struct config`; the two integers are checked not to be negative. -/
structure Config extends MimeFilter where
  maxEntries : ℕ
  maxSize : ℕ
  persist : Bool
  regular : Bool
  primary : Bool
  setOnStartup : Bool
  dedup : Dedup
  configuredSeats : List ConfigSeat

/-- The values that `config_init` starts from. -/
def configInit : Config where
  allowedMimeTypes := []
  blockedMimeTypes := []
  transientMimeTypes := []
  maxEntries := 100
  maxSize := 20000000
  persist := true
  regular := true
  primary := true
  setOnStartup := true
  dedup := .all
  configuredSeats := []

def uint32Max : ℕ := 4294967295

/-- How the descriptor for `get_data` turns out. -/
inductive Memfd where
  | ok
  | notCreated (strerror : Bytes)
  | notMapped
  | notSealed
deriving DecidableEq

structure Ambient where
  now : ℤ
  sql : Sql
  memfd : Memfd

def Ambient.quiet (now : ℤ) : Ambient := ⟨now, allOk, .ok⟩

/-- `struct state`. The list `transient` holds the transient entry; `disk` is the database
file while the session keeps its tables in memory. -/
structure State where
  config : Config
  db : Database
  disk : Tables
  ipc : List Client
  seats : List Seat
  activeToplevel : Option MimeFilter
  id : ℤ
  cleared : Bool
  transient : List (CString × Bytes)

namespace State

/-- The bytes that `wsignal_send` writes, unless it refuses. Empty data is a NULL pointer. -/
def wsignalSend (ok : Bool) (mimeType : CString) (s : State) : Option Bytes :=
  if s.id = -1 then none
  else if s.id > 0 then databaseGetData ok s.id mimeType s.db
  else (s.transient.find? (fun e => e.1 = mimeType)).bind
    (fun e => if e.2 = [] then none else some e.2)

/-- The types that `wsignal_set` advertises for the current entry. -/
def offeredTypes (ok : Bool) (s : State) : List CString :=
  if s.id = 0 then s.transient.map Prod.fst
  else (databaseGetMimeTypes ok s.id s.db).getD []

def wsignalSet (ok : Bool) (s : State) : SetResult :=
  if s.id ≥ 0 then
    (some ⟨s.offeredTypes ok, s.id, fun mimeType => s.wsignalSend true mimeType⟩, false)
  else (none, s.cleared)

def wsignalCanSet (s : State) : Bool := s.id ≠ -1

/-- Statements for different selections are told apart by this number. -/
def selectionIndex : SelectionName → ℕ
  | (seat, .regular) => 2 * seat
  | (seat, .primary) => 2 * seat + 1

/-- `signals.set`, as the seats call it. -/
def setCallback (sql : Sql) (s : State) (name : SelectionName) : SetResult :=
  s.wsignalSet (sql .getMimeTypes (selectionIndex name))

/-- `wayland_set` on the seats of the daemon. -/
def waylandSet (sql : Sql) (ignore : Option SelectionName) (s : State) : State :=
  { s with seats := Swayclip.waylandSet (s.setCallback sql) ignore s.seats }

/-- `set`: make `id` the current entry. -/
def set (sql : Sql) (ignore : Option SelectionName) (id : ℤ) (s : State) : State :=
  let s := if s.id > 0 then { s with ipc := ipcEventEntryState s.id false s.ipc } else s
  let s := { s with id := id }
  let s := if id = -1 then { s with cleared := true } else s
  let s := if id > 0 then
    { s with db := (databaseSaveSetting (sql .saveSetting 0) id s.db).2 } else s
  let s := s.waylandSet sql ignore
  if id > 0 then { s with ipc := ipcEventEntryState id true s.ipc } else s

/-- `update`: refresh the update time and, if given, the pin flag. -/
def update (a : Ambient) (id : ℤ) (pinned : Option Bool) (s : State) : Bool × State :=
  match databaseUpdateEntry (a.sql .updateEntry 0) a.now id pinned s.db with
  | (none, db) => (false, { s with db := db })
  | (some t, db) =>
    (true, { s with db := db, ipc := ipcEventEntryUpdate id (some t) pinned s.ipc })

def clearTransient (s : State) : State := { s with transient := [] }

/-- `database_trim` with `trim_callback`. -/
def trim (a : Ambient) (s : State) : State :=
  let (ids, db) := databaseTrim (a.sql .trim 0) s.config.maxEntries s.db
  { s with db := db, ipc := ids.foldl (fun ipc id => ipcEventEntryDelete id ipc) s.ipc }

end State

end Swayclip
