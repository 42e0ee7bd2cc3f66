import Swayclip.Common.Sha256
import Swayclip.Library.Frames
import Swayclip.Library.Incremental

/-! # Reading messages from the socket

`ipc_ct_read` in steps of one `recvmsg` each. The header is collected in the buffer, the
payload is handed to the JSON tokener as it comes in, and every value that the tokener
reports goes to the callback. The tokener is a parameter.
-/

namespace Swayclip
open Library.Frames Library.Incremental Library.Runs

/-- `json_tokener_parse_ex`, for texts that end with NUL. -/
abbrev JsonTokener (V : Type*) := Parser (0 : UInt8) V

/-- A byte on the socket, with the descriptor that was sent along with it. -/
abbrev Cell := UInt8 × Option ℕ

def bytesOf (cells : List Cell) : Bytes := cells.map Prod.fst

def headerSize : ℕ := 5

def maxPayload : ℕ := 1048576

def bufSpace : ℕ := 4095

/-- A `uint32_t` in memory, low byte first. -/
def uint32Bytes (n : ℕ) : Bytes :=
  [UInt8.ofNat n, UInt8.ofNat (n / 256), UInt8.ofNat (n / 65536), UInt8.ofNat (n / 16777216)]

def readUint32 : Bytes → ℕ
  | [] => 0
  | b :: bs => b.toNat + 256 * readUint32 bs

/-- The message format: a type, the size of the payload, the payload. -/
def ipcFormat : Format UInt8 where
  headerSize := headerSize
  headerSize_pos := by decide
  payloadSize header :=
    let size := readUint32 (header.drop 1)
    if size > maxPayload then none else some size

/-- `struct ipc_message`; `auxFd` is the descriptor that came along. -/
structure IpcMessage (V : Type*) where
  type : UInt8
  payload : V
  auxFd : Option ℕ
deriving DecidableEq

/-- `struct ipc_ct` without its write queue. `buf` is as much of the buffer as was written. -/
structure IpcCt {V : Type*} (T : JsonTokener V) where
  pendingHeader : Bool
  pendingType : UInt8
  pendingSize : ℕ
  scmFd : Option ℕ
  tokener : T.State
  buf : Bytes

/-- What one call of `recvmsg` yields; no bytes is the end of the stream. -/
inductive RecvMsg where
  | data (cells : List Cell)
  | eintr
  | eagain
  | error
deriving DecidableEq

def RecvMsg.size : RecvMsg → ℕ
  | .data cells => cells.length
  | _ => 0

variable {V : Type*} {T : JsonTokener V}

def ipcCtReset (ict : IpcCt T) : IpcCt T :=
  { ict with pendingHeader := true, pendingSize := headerSize }

def ipcCtInit (T : JsonTokener V) : IpcCt T := ipcCtReset ⟨true, 0, 0, none, T.start, []⟩

namespace IpcCt

def recvLen (ict : IpcCt T) : ℕ := min bufSpace ict.pendingSize

/-- `io_recv` when it gets something: the bytes go behind the part of the header that is
there, and the first descriptor is taken unless one is waiting already. -/
def ioRecv (wantFd : Bool) (cells : List Cell) (ict : IpcCt T) : IpcCt T :=
  let off := if ict.pendingHeader then headerSize - ict.pendingSize else 0
  { ict with
    buf := ict.buf.take off ++ bytesOf cells
    scmFd := if wantFd && ict.scmFd.isNone then cells.findSome? Prod.snd else ict.scmFd }

/-- The branch for the header, after `r` bytes have been received. The first result is what
`ipc_ct_read` returns, if it does. -/
def readHeader (r : ℕ) (ict : IpcCt T) : Option Bool × IpcCt T × List (IpcMessage V) :=
  let ict := { ict with pendingSize := ict.pendingSize - r }
  if ict.pendingSize > 0 then (some true, ict, [])
  else
    let ict := { ict with
      pendingType := ict.buf.headD 0
      pendingSize := readUint32 ((ict.buf.drop 1).take 4) }
    if ict.pendingSize > maxPayload then (some false, ipcCtReset ict, [])
    else (none, { ict with pendingHeader := false }, [])

/-- Handing a text to the tokener. It starts afresh after a value, by itself, and after an
error, where it is reset. -/
def parseText (text : Bytes) (ict : IpcCt T) : Option Bool × IpcCt T × List (IpcMessage V) :=
  match T.parse ict.tokener text with
  | .value msg =>
    (none, { ict with scmFd := none, tokener := T.start }, [⟨ict.pendingType, msg, ict.scmFd⟩])
  | .more t => (none, { ict with tokener := t }, [])
  | .bad => (none, { ict with tokener := T.start }, [])

/-- The rest of the loop body; the last piece of a payload gets its NUL. -/
def readPayload (r : ℕ) (ict : IpcCt T) : Option Bool × IpcCt T × List (IpcMessage V) :=
  let ict := { ict with pendingSize := ict.pendingSize - r }
  if ict.pendingSize = 0 then (ipcCtReset ict).parseText (ict.buf.take r ++ [0])
  else ict.parseText (ict.buf.take r)

def turn (wantFd : Bool) (ict : IpcCt T) : RecvMsg → Option Bool × IpcCt T × List (IpcMessage V)
  | .eintr => (none, ict, [])
  | .eagain => (some true, ict, [])
  | .error => (some false, ict, [])
  | .data cells =>
    let ict := ict.ioRecv wantFd cells
    if ict.pendingHeader then ict.readHeader cells.length else ict.readPayload cells.length

/-- `ipc_ct_read` on what its calls of `recvmsg` yield: its result, unless it still wants to
receive, the messages for the callback, and the outcomes that it did not get to. -/
def ipcCtRead (wantFd : Bool) :
    IpcCt T → List RecvMsg → Option Bool × IpcCt T × List (IpcMessage V) × List RecvMsg
  | ict, [] => (none, ict, [], [])
  | ict, r :: rs =>
    match ict.turn wantFd r with
    | (some b, ict, msgs) => (some b, ict, msgs, rs)
    | (none, ict, msgs) =>
      let (ret, ict, more, rest) := ipcCtRead wantFd ict rs
      (ret, ict, msgs ++ more, rest)

/-- The messages of a connection's life: `ipc_ct_read` is called again until it fails. -/
def serve (wantFd : Bool) : IpcCt T → List RecvMsg → List (IpcMessage V)
  | _, [] => []
  | ict, r :: rs =>
    match ict.turn wantFd r with
    | (some false, _, msgs) => msgs
    | (_, ict, msgs) => msgs ++ serve wantFd ict rs

theorem serve_eq (wantFd : Bool) (ict : IpcCt T) (rs : List RecvMsg) :
    serve wantFd ict rs = (ipcCtRead wantFd ict rs).2.2.1 ++
      if (ipcCtRead wantFd ict rs).1 = some false then []
      else serve wantFd (ipcCtRead wantFd ict rs).2.1 (ipcCtRead wantFd ict rs).2.2.2 := by
  induction rs generalizing ict with
  | nil => simp [serve, ipcCtRead]
  | cons r rs ih =>
    rw [serve, ipcCtRead]
    obtain ⟨ret, ict', msgs⟩ := ict.turn wantFd r
    cases ret with
    | none => simp only [ih ict', List.append_assoc]
    | some b => cases b <;> simp

/-- `recvmsg` yields no more than it was asked for. -/
def Fits (wantFd : Bool) : IpcCt T → List RecvMsg → Prop :=
  Meets (fun ict r => (ict.turn wantFd r).2.1) (fun ict r => r.size ≤ ict.recvLen)

end IpcCt

/-- The pieces in which the stream arrives; nothing is received after an error. -/
def receivedPieces : List RecvMsg → List Bytes
  | [] => []
  | .data cells :: rs => bytesOf cells :: receivedPieces rs
  | .error :: _ => []
  | _ :: rs => receivedPieces rs

/-! ## Where in the stream the reader stands -/

/-- The reader's variables describe the cursor. -/
def IpcCt.Stands (ict : IpcCt T) : Cursor UInt8 → Prop
  | .header got => ict.pendingHeader = true ∧ ict.pendingSize = headerSize - got.length ∧
      ict.buf.take got.length = got ∧ ict.tokener = T.start
  | .payload h n ps => ict.pendingHeader = false ∧ ict.pendingType = h.headD 0 ∧
      ict.pendingSize = n - ps.flatten.length ∧ ict.tokener = ps.foldl T.next T.start
  | .refused => False

theorem ipcCtInit_stands (T : JsonTokener V) : (ipcCtInit T).Stands .fresh :=
  ⟨rfl, rfl, rfl, rfl⟩

theorem bytesOf_length (cells : List Cell) : (bytesOf cells).length = cells.length :=
  List.length_map _

end Swayclip
