import Swayclip.Daemon.State

/-! # Serving requests

`request_callback` on the nine requests, and `message_callback`, which holds requests
back and flushes the events that were emitted while one was being handled.
-/

namespace Swayclip

/-- `IPC_INVALID_ARGS`. -/
def ipcInvalidArgs : Bytes := ascii "Invalid arguments".toList

/-- `IPC_DB_ERROR`. -/
def ipcDbError : Bytes := ascii "Database error".toList

def unknownEvent (name : Bytes) : Bytes :=
  ascii "Unknown event \"".toList ++ name ++ ascii "\"".toList

def idDoesNotExist (id : ℤ) : Bytes :=
  ascii ("Entry id ".toList ++ (toString id).toList ++ " does not exist".toList)

/-- The loop of `subscribe`: the flags, or the text of the error. -/
def subscribeEvents : List EventArg → List EventFlag → Except Bytes (List EventFlag)
  | [], events => .ok events
  | .flag f :: args, events => subscribeEvents args (events ++ [f])
  | .unknown name :: _, _ => .error (unknownEvent name)
  | .null :: _, _ => .error ipcInvalidArgs

/-- `get_entry_callback` reads an attribute into a buffer of 256 bytes. -/
def attributeText (value : Option CString) : Bytes :=
  match value with
  | none => ascii "(null)".toList
  | some text => text.bytes.take 255

/-- The longest name that `memfd_create` takes. -/
def memfdNameMax : ℕ := 249

/-- `memfd_create` refuses a longer name. Else it turns out as it may. -/
def memfdCreate (name : CString) (memfd : Memfd) : Memfd :=
  if name.bytes.length > memfdNameMax then .notCreated (ascii "Invalid argument".toList) else memfd

namespace State

/-- Act on the client with the descriptor. -/
def onClient (fd : ℕ) (f : Client → Client) (s : State) : State :=
  { s with ipc := s.ipc.map (fun client => if client.fd = fd then f client else client) }

def sendError (fd : ℕ) (desc : Bytes) (s : State) : State := s.onClient fd (ipcClientSendError desc)

def sendSuccess (fd : ℕ) (s : State) : State := s.onClient fd ipcClientSendSuccess

/-- `get_entry_callback` for the `i`-th row; a row with a failing call is left out. -/
def getEntryCallback (sql : Sql) (s : State) (i : ℕ) (e : Entry) : Option HistoryRow :=
  match databaseGetMimeTypes (sql .getMimeTypes i) e.id s.db with
  | none => none
  | some mimeTypes =>
    match databaseGetAttribute (sql .getAttribute (2 * i)) e.id .contentType s.db with
    | none => none
    | some contentType =>
      match databaseGetAttribute (sql .getAttribute (2 * i + 1)) e.id .contentMime s.db with
      | none => none
      | some contentMime =>
        some ⟨e.id, e.creationTime, e.updateTime, e.pinned, s.id = e.id, mimeTypes,
          attributeText contentType, attributeText contentMime⟩

def serveSubscribe (fd : ℕ) (events : Option (List EventArg)) (s : State) : State :=
  match events with
  | none => s.sendError fd ipcInvalidArgs
  | some args =>
    match subscribeEvents args [] with
    | .error desc => s.sendError fd desc
    | .ok flags => (s.onClient fd (Client.ipcClientSetEvents flags)).sendSuccess fd

def serveGetHistoryLength (a : Ambient) (fd : ℕ) (s : State) : State :=
  match databaseGetHistorySize (a.sql .getHistorySize 0) s.db with
  | none => s.sendError fd ipcDbError
  | some size => s.onClient fd (ipcClientSend (.size size))

def serveGetHistory (a : Ambient) (fd : ℕ) (start n : Option ℤ) (s : State) : State :=
  match start, n with
  | some start, some n =>
    match databaseGetEntries (a.sql .getEntries 0) start n s.db with
    | none => s.sendError fd ipcDbError
    | some rows =>
      let rows := (rows.mapIdx (fun i e => s.getEntryCallback a.sql i e)).filterMap (fun row => row)
      s.onClient fd (ipcClientSend (.history rows))
  | _, _ => s.sendError fd ipcInvalidArgs

def serveGetData (a : Ambient) (fd : ℕ) (id : Option ℤ) (mimeType : Option CString) (s : State) :
    State :=
  match id, mimeType with
  | some id, some mimeType =>
    match databaseGetData (a.sql .getDataRowid 0) id mimeType s.db with
    | none => s.sendError fd ipcDbError
    | some data =>
      match memfdCreate mimeType a.memfd with
      | .ok => s.onClient fd (ipcClientSendSuccessFd data)
      | .notCreated strerror =>
        s.sendError fd (ascii "Error creating file descriptor: ".toList ++ strerror)
      | .notMapped => s.sendError fd (ascii "Error mapping file descriptor".toList)
      | .notSealed => s.sendError fd (ascii "Error sealing file descriptor".toList)
  | _, _ => s.sendError fd ipcInvalidArgs

def serveSetClipboard (a : Ambient) (fd : ℕ) (id : Option ℤ) (s : State) : State :=
  match id with
  | none => s.sendError fd ipcInvalidArgs
  | some id =>
    if id ≠ -1 ∧ !databaseIdExists (a.sql .idExists 0) id s.db then
      s.sendError fd (idDoesNotExist id)
    else
      let (ok, s) := (s.set a.sql none id).update a id none
      if ok then s.sendSuccess fd else s.sendError fd ipcDbError

/-- What follows a deletion that succeeded. The current entry is reset before `set`, so that
no event tells about the state of a deleted entry. -/
def entryDeleted (a : Ambient) (fd : ℕ) (id : ℤ) (s : State) : State :=
  let s := if id = -1 ∨ id = s.id then { s with id := -1 }.set a.sql none (-1) else s
  let s := s.sendSuccess fd
  { s with ipc := ipcEventEntryDelete id s.ipc }

def serveDeleteEntry (a : Ambient) (fd : ℕ) (id : Option ℤ) (s : State) : State :=
  match id with
  | none => s.sendError fd ipcInvalidArgs
  | some id =>
    if id = -1 then
      match databaseClear (a.sql .clear 0) s.db with
      | (false, db) => { s with db := db }.sendError fd ipcDbError
      | (true, db) => { s with db := db }.entryDeleted a fd id
    else if !databaseIdExists (a.sql .idExists 0) id s.db then s.sendError fd (idDoesNotExist id)
    else
      match databaseDeleteEntry (a.sql .delEntry 0) id s.db with
      | (false, db) => { s with db := db }.sendError fd ipcDbError
      | (true, db) => { s with db := db }.entryDeleted a fd id

/-- The flag to set, if the argument is one of the three words. -/
def pinFlag (a : Ambient) (id : ℤ) (pin : PinArg) (s : State) : Option Bool :=
  match pin with
  | .yes => some true
  | .no => some false
  | .toggle => some (!databaseEntryIsPinned (a.sql .getPinned 0) id s.db)
  | .other => none

def servePinEntry (a : Ambient) (fd : ℕ) (id : Option ℤ) (pin : Option PinArg) (s : State) :
    State :=
  match id, pin with
  | some id, some pin =>
    if !databaseIdExists (a.sql .idExists 0) id s.db then s.sendError fd (idDoesNotExist id)
    else
      match s.pinFlag a id pin with
      | none => s.sendError fd ipcInvalidArgs
      | some pin =>
        let (ok, s) := s.update a id (some pin)
        if ok then s.sendSuccess fd else s.sendError fd ipcDbError
  | _, _ => s.sendError fd ipcInvalidArgs

def serveHoldRequests (fd : ℕ) (n : Option ℤ) (s : State) : State :=
  match n with
  | none => s.sendError fd ipcInvalidArgs
  | some n =>
    if n > uint32Max then
      s.sendError fd (ascii "number of requests to hold exceeds UINT32_MAX".toList)
    else (s.onClient fd (Client.ipcClientAddHold n)).sendSuccess fd

def requestCallback (a : Ambient) (fd : ℕ) (req : Request) (s : State) : State :=
  match req with
  | .subscribe events => s.serveSubscribe fd events
  | .getHistoryLength => s.serveGetHistoryLength a fd
  | .getHistory start n => s.serveGetHistory a fd start n
  | .getData id mimeType => s.serveGetData a fd id mimeType
  | .setClipboard id => s.serveSetClipboard a fd id
  | .deleteEntry id => s.serveDeleteEntry a fd id
  | .pinEntry id pin => s.servePinEntry a fd id pin
  | .getCurrent => s.onClient fd (ipcClientSend (.current s.id))
  | .holdRequests n => s.serveHoldRequests fd n
  | .invalid => s.sendError fd ipcInvalidArgs

/-- One call of `request_callback`, with the flag that delays the client's own events. -/
def handleRequest (a : Ambient) (fd : ℕ) (req : Request) (s : State) : State :=
  ((s.onClient fd (fun client => { client with handlingReq := true })).requestCallback a fd
    req).onClient fd (fun client => { client with handlingReq := false })

/-- The held requests in order; each finds its own surroundings. -/
def handleRequests (ambient : ℕ → Ambient) (fd : ℕ) : ℕ → List Request → State → State
  | _, [], s => s
  | i, req :: reqs, s => handleRequests ambient fd (i + 1) reqs (s.handleRequest (ambient i) fd req)

/-- `message_callback`; `none` is a message that is not a request. -/
def messageCallback (ambient : ℕ → Ambient) (client : Client) (msg : Option Request) (s : State) :
    State :=
  let s := match msg with
    | none => s
    | some req =>
      if client.hold > 0 then
        let held := client.holdArr ++ [req]
        if client.hold - 1 = 0 then
          let s := s.onClient client.fd (fun c => { c with hold := 0, holdArr := held })
          (s.handleRequests ambient client.fd 0 held).onClient client.fd
            (fun c => { c with holdArr := [] })
        else s.onClient client.fd (fun c => { c with hold := client.hold - 1, holdArr := held })
      else s.handleRequest (ambient 0) client.fd req
  s.onClient client.fd Client.ipcClientFlushEvents

end State

end Swayclip
