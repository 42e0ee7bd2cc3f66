import Mathlib.Data.Int.Notation
import Swayclip.Common.Sha256

/-! # IPC clients

A client subscribes to events and may ask that its next requests be held and then served
together. Events emitted while one of its own requests is being handled wait until the
reply has been written.
-/

namespace Swayclip

/-- The bits `IPC_EVENT_FLAG_*`. -/
inductive EventFlag where
  | entryAdd
  | entryDelete
  | entryUpdate
  | entryMove
  | entryState
deriving DecidableEq

/-- The payload of an event message. -/
inductive EventMsg where
  | entryAdd (id : ℤ)
  | entryDelete (id : ℤ)
  | entryUpdate (id : ℤ) (updateTime : Option ℤ) (pinned : Option Bool)
  | entryMove (id oldPos newPos : ℤ)
  | entryState (id : ℤ) (state : Bool)
deriving DecidableEq

def EventMsg.flag : EventMsg → EventFlag
  | .entryAdd _ => .entryAdd
  | .entryDelete _ => .entryDelete
  | .entryUpdate .. => .entryUpdate
  | .entryMove .. => .entryMove
  | .entryState .. => .entryState

/-- An object in the reply to `get_history`. -/
structure HistoryRow where
  id : ℤ
  creationTime : ℤ
  updateTime : ℤ
  pinned : Bool
  current : Bool
  mimeTypes : List CString
  contentType : Option Bytes
  contentMimeType : Option Bytes
deriving DecidableEq

/-- What the daemon sends; a success may carry a descriptor, given by its content. -/
inductive Message where
  | size (n : ℤ)
  | history (rows : List HistoryRow)
  | current (id : ℤ)
  | success (fd : Option Bytes)
  | error (desc : Bytes)
  | event (msg : EventMsg)
deriving DecidableEq

/-- An element of the array `events` of `subscribe`. -/
inductive EventArg where
  | flag (f : EventFlag)
  | unknown (name : Bytes)
  | null

/-- The value of `pin` in `pin_entry`. -/
inductive PinArg where
  | yes
  | no
  | toggle
  | other

/-- A parsed request; a field that is missing or has another type is `none`. -/
inductive Request where
  | subscribe (events : Option (List EventArg))
  | getHistoryLength
  | getHistory (start n : Option ℤ)
  | getData (id : Option ℤ) (mimeType : Option CString)
  | setClipboard (id : Option ℤ)
  | deleteEntry (id : Option ℤ)
  | pinEntry (id : Option ℤ) (pin : Option PinArg)
  | getCurrent
  | holdRequests (n : Option ℤ)
  | invalid

/-- `struct ipc_client`, named by its descriptor. `writeQueue` keeps every message that
was ever queued. -/
structure Client where
  fd : ℕ
  events : List EventFlag
  hold : UInt32
  holdArr : List Request
  pendingEvents : List EventMsg
  handlingReq : Bool
  writeQueue : List Message

def ipcAddClient (fd : ℕ) : Client := ⟨fd, [], 0, [], [], false, []⟩

namespace Client

def ipcCtWriteMsg (msg : Message) (client : Client) : Client :=
  { client with writeQueue := client.writeQueue ++ [msg] }

/-- The body of the loop of `ipc_emit_event`. -/
def emit (msg : EventMsg) (client : Client) : Client :=
  if msg.flag ∈ client.events then
    if client.handlingReq then { client with pendingEvents := client.pendingEvents ++ [msg] }
    else client.ipcCtWriteMsg (.event msg)
  else client

def ipcClientFlushEvents (client : Client) : Client :=
  { client with
    writeQueue := client.writeQueue ++ client.pendingEvents.map Message.event
    pendingEvents := [] }

def ipcClientSetEvents (events : List EventFlag) (client : Client) : Client :=
  { client with events := events }

/-- `n` is converted to `uint32_t`, and the sum wraps around. -/
def ipcClientAddHold (n : ℤ) (client : Client) : Client :=
  { client with hold := client.hold + UInt32.ofInt n }

@[simp] theorem emit_fd (msg : EventMsg) (client : Client) : (client.emit msg).fd = client.fd := by
  unfold emit
  split
  · split <;> rfl
  · rfl

@[simp] theorem emit_events (msg : EventMsg) (client : Client) :
    (client.emit msg).events = client.events := by
  unfold emit
  split
  · split <;> rfl
  · rfl

@[simp] theorem emit_handlingReq (msg : EventMsg) (client : Client) :
    (client.emit msg).handlingReq = client.handlingReq := by
  unfold emit
  split
  · split <;> rfl
  · rfl

@[simp] theorem emit_hold (msg : EventMsg) (client : Client) :
    (client.emit msg).hold = client.hold := by
  unfold emit
  split
  · split <;> rfl
  · rfl

@[simp] theorem emit_holdArr (msg : EventMsg) (client : Client) :
    (client.emit msg).holdArr = client.holdArr := by
  unfold emit
  split
  · split <;> rfl
  · rfl

end Client

/-! ## Events -/

def ipcEmitEvent (msg : EventMsg) (clients : List Client) : List Client :=
  clients.map (Client.emit msg)

def ipcEventSubscribed (event : EventFlag) (clients : List Client) : Bool :=
  clients.any (fun client => event ∈ client.events)

/-- The common shape of the five functions below. -/
def ipcEvent (msg : EventMsg) (clients : List Client) : List Client :=
  if !ipcEventSubscribed msg.flag clients then clients
  else ipcEmitEvent msg clients

def ipcEventEntryAdd (id : ℤ) : List Client → List Client := ipcEvent (.entryAdd id)

/-- With `-1`, all entries are considered to be deleted. -/
def ipcEventEntryDelete (id : ℤ) : List Client → List Client := ipcEvent (.entryDelete id)

def ipcEventEntryUpdate (id : ℤ) (updateTime : Option ℤ) (pinned : Option Bool) :
    List Client → List Client := ipcEvent (.entryUpdate id updateTime pinned)

def ipcEventEntryMove (id oldPos newPos : ℤ) : List Client → List Client :=
  ipcEvent (.entryMove id oldPos newPos)

def ipcEventEntryState (id : ℤ) (state : Bool) : List Client → List Client :=
  ipcEvent (.entryState id state)

/-- Without a subscriber there is nobody to emit to. -/
theorem ipcEvent_eq_map (msg : EventMsg) (clients : List Client) :
    ipcEvent msg clients = clients.map (Client.emit msg) := by
  unfold ipcEvent
  split
  · rename_i h
    have hnone : ∀ client ∈ clients, msg.flag ∉ client.events := by
      simpa [ipcEventSubscribed] using h
    have hemit : ∀ client ∈ clients, client.emit msg = client :=
      fun client hc => if_neg (hnone client hc)
    exact ((List.map_congr_left hemit).trans (List.map_id' clients)).symm
  · rfl

/-! ## Replies -/

/-- Error texts go through a buffer of 256 bytes. -/
def ipcClientSendError (desc : Bytes) : Client → Client :=
  Client.ipcCtWriteMsg (.error (desc.take 255))

def ipcClientSendSuccess : Client → Client := Client.ipcCtWriteMsg (.success none)

def ipcClientSendSuccessFd (data : Bytes) : Client → Client :=
  Client.ipcCtWriteMsg (.success (some data))

def ipcClientSend : Message → Client → Client := Client.ipcCtWriteMsg

end Swayclip
