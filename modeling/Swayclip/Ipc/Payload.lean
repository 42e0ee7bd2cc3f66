import Swayclip.Ipc.Client
import Swayclip.Ipc.RoundTrip
import Swayclip.Library.Json

/-! # The daemon's messages on the wire

Each message that the daemon sends has a type and a JSON value.
-/

namespace Swayclip
open Library

/-- `IPC_MESSAGE_*`. -/
inductive IpcMessageType where
  | request
  | response
  | success
  | error
  | event
deriving DecidableEq

def IpcMessageType.code : IpcMessageType → UInt8
  | .request => 0
  | .response => 1
  | .success => 2
  | .error => 3
  | .event => 4

/-! ## Fields -/

def jsonKey (key : String) : Bytes := ascii key.toList

def jsonFieldInt (key : String) (n : ℤ) : Bytes × Json := (jsonKey key, .int n)

def jsonFieldBool (key : String) (b : Bool) : Bytes × Json := (jsonKey key, .bool b)

def jsonFieldStr (key : String) (s : Bytes) : Bytes × Json := (jsonKey key, .string s)

def jsonFieldObj (key : String) (j : Json) : Bytes × Json := (jsonKey key, j)

/-! ## Values -/

/-- What `get_entry_callback` builds, in the order of its calls. -/
def HistoryRow.toJson (row : HistoryRow) : Json :=
  .object ([jsonFieldInt "id" row.id, jsonFieldInt "creation_time" row.creationTime,
    jsonFieldInt "update_time" row.updateTime, jsonFieldBool "pinned" row.pinned,
    jsonFieldBool "current" row.current,
    jsonFieldObj "mime_types" (.array (row.mimeTypes.map fun m => .string m.bytes))] ++
    (row.contentType.map (jsonFieldStr "content_type")).toList ++
    (row.contentMimeType.map (jsonFieldStr "content_mime_type")).toList)

def historyJson (rows : List HistoryRow) : Json := .array (rows.map HistoryRow.toJson)

/-- The object of an event; the two fields of an update are optional. -/
def EventMsg.toJson : EventMsg → Json
  | .entryAdd id =>
    .object [jsonFieldStr "event" (jsonKey "entry_add"), jsonFieldInt "id" id]
  | .entryDelete id =>
    .object [jsonFieldStr "event" (jsonKey "entry_delete"), jsonFieldInt "id" id]
  | .entryUpdate id updateTime pinned =>
    .object ([jsonFieldStr "event" (jsonKey "entry_update"), jsonFieldInt "id" id] ++
      (pinned.map (jsonFieldBool "pinned")).toList ++
      (updateTime.map (jsonFieldInt "update_time")).toList)
  | .entryMove id oldPos newPos =>
    .object [jsonFieldStr "event" (jsonKey "entry_move"), jsonFieldInt "id" id,
      jsonFieldInt "old_pos" oldPos, jsonFieldInt "new_pos" newPos]
  | .entryState id state =>
    .object [jsonFieldStr "event" (jsonKey "entry_state"), jsonFieldInt "id" id,
      jsonFieldBool "state" state]

namespace Message

def type : Message → IpcMessageType
  | .size _ | .history _ | .current _ => .response
  | .success _ => .success
  | .error _ => .error
  | .event _ => .event

def toJson : Message → Json
  | .size n => .object [jsonFieldInt "size" n]
  | .history rows => historyJson rows
  | .current id => .int id
  | .success _ => .object []
  | .error desc => .object [jsonFieldStr "desc" desc]
  | .event msg => msg.toJson

/-- Only a success carries a descriptor; `memfd` names the one with its data. -/
def outgoing (memfd : Bytes → ℕ) (msg : Message) : Outgoing Json where
  type := msg.type.code
  payload := msg.toJson
  scmFd := match msg with
    | .success data => data.map memfd
    | _ => none

end Message

end Swayclip
