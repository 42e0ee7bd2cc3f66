import Swayclip.Ipc.Payload

/-! # Messages at the end of the client

What `swctl` keeps of a message that it is sent, and how it looks into the payload.
-/

namespace Swayclip
open Library

/-- A string up to its first NUL. -/
def CString.ofBytes (bytes : Bytes) : CString where
  bytes := bytes.takeWhile (· ≠ 0)
  nonul h := by simpa using List.all_eq_true.mp List.all_takeWhile 0 h

theorem CString.ofBytes_terminated {text : Bytes} (htext : 0 ∉ text) (rest : Bytes) :
    (CString.ofBytes (text ++ 0 :: rest)).bytes = text := by
  have hnonul : ∀ b ∈ text, decide (b ≠ 0) = true := fun b hb =>
    decide_eq_true (ne_of_mem_of_not_mem hb htext)
  change (text ++ 0 :: rest).takeWhile (· ≠ 0) = text
  rw [List.takeWhile_append_of_pos hnonul, List.takeWhile_cons_of_neg (by decide),
    List.append_nil]

/-! ## Fields of an object -/

/-- `json_object_object_get`. -/
def jsonObjectGet (key : String) : Json → Option Json
  | .object fields => (fields.find? (fun field => field.1 = jsonKey key)).map Prod.snd
  | _ => none

def jsonExtractInt (key : String) (obj : Json) : Option ℤ :=
  match jsonObjectGet key obj with
  | some (.int n) => some n
  | _ => none

def jsonExtractBool (key : String) (obj : Json) : Option Bool :=
  match jsonObjectGet key obj with
  | some (.bool b) => some b
  | _ => none

def jsonExtractStr (key : String) (obj : Json) : Option CString :=
  match jsonObjectGet key obj with
  | some (.string s) => some (CString.ofBytes s)
  | _ => none

namespace Cli

/-- `struct message`; no data is a NULL pointer. -/
structure Message where
  type : UInt8
  obj : Json
  auxData : Option Bytes

def Message.auxDataLen (msg : Message) : ℕ := (msg.auxData.getD []).length

/-- `message_callback`; `file` is what the mapping of a descriptor shows. Memory is there also for
no data at all. -/
def messageCallback (file : ℕ → Bytes) (imsg : IpcMessage Json) : Message where
  type := imsg.type
  obj := imsg.payload
  auxData := some ((imsg.auxFd.map file).getD [])

/-- An error is reported, and counts as failure like all other types. -/
def isSuccess (msg : Message) : Bool := msg.type = IpcMessageType.success.code

end Cli

/-- The data that comes with a message of the daemon. -/
def Message.data : Message → Bytes
  | .success (some data) => data
  | _ => []

/-- What `swctl` makes of a message of the daemon. -/
def Message.atClient (msg : Message) : Cli.Message where
  type := msg.type.code
  obj := msg.toJson
  auxData := some msg.data

/-- The descriptor that the daemon sends shows the data at the other end. -/
theorem messageCallback_outgoing {memfd : Bytes → ℕ} {file : ℕ → Bytes}
    (hfile : ∀ data, file (memfd data) = data) (msg : Message) :
    Cli.messageCallback file ((msg.outgoing memfd).received true) = msg.atClient := by
  cases msg with
  | success data =>
    cases data with
    | none => rfl
    | some data =>
      simp only [Cli.messageCallback, Message.outgoing, Outgoing.received, Message.atClient,
        Message.data, if_true, Option.map_some, Option.getD_some, hfile]
  | _ => rfl

end Swayclip
