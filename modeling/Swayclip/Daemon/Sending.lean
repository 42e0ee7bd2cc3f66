import Swayclip.Daemon.Transitions
import Swayclip.Library.Ledger
import Swayclip.Library.Streaming

/-! # Sending the data of a type

A source of the daemon is asked to write the data of a type to a descriptor. The context that
is set up for it outlives the request: it is written from whenever the descriptor is writable,
out of a row of `Data` or out of the transient data, while other events go on.
-/

namespace Swayclip

/-- Where a context takes its data from. A blob handle expires when its row is deleted; the
transient data a pointer leads to is told by how often it had been cleared before. -/
inductive Origin where
  | blob (dataId : Digest) (expired : Bool)
  | transient (generation : ℕ) (mimeType : CString)
deriving DecidableEq

/-- `struct send_context`. `ptr` is counted from the start of `buf` or of the transient data.
The code does not have `requested` and `sent`: the data when the request was accepted, and
what has been written so far. -/
structure SendContext where
  fd : ℕ
  origin : Origin
  buf : Bytes
  ptr : ℕ
  remaining : ℕ
  sz : ℕ
  off : ℕ
  requested : Bytes
  sent : Bytes

inductive SendEnd where
  | done
  | readFailed
  | writeFailed
  | hangup
  | exit
deriving DecidableEq

/-- The receiver is still there when the descriptor is closed, and reads to the end. -/
def SendEnd.readToEnd : SendEnd → Bool
  | .done => true
  | .readFailed => true
  | _ => false

inductive Access where
  | freed (generation : ℕ)
  | read (generation : ℕ)
deriving DecidableEq

/-- The daemon with its send contexts; `generation` counts how often the transient data has
been cleared. The trace and the contexts that ended are kept for statements. -/
structure Pasting where
  state : State
  generation : ℕ
  contexts : List SendContext
  trace : List Access
  ended : List (SendContext × SendEnd)

def sendBufsize : ℕ := 4096

/-- The row that `database_get_data` opens a handle on, and what `sqlite3_blob_bytes` is the
length of. -/
def databaseOpenData (ok : Bool) (id : ℤ) (mime : CString) (db : Database) :
    Option (Digest × Bytes) :=
  if ok then
    ((db.tables.mimeTypes.find? (fun m => m.id = id ∧ m.mimeType = mime)).bind
      MimeRow.dataId).bind
        (fun dataId => (db.tables.dataOf dataId).map (fun data => (dataId, data)))
  else none

structure Setup where
  setFdNonblocking : Bool
  malloc : Bool
  getData : Bool
  eventloopAdd : Bool

/-- The outcome of one `write`; a number `n` stands for `n + 1` bytes, if as many are left. -/
inductive Written where
  | wrote (n : ℕ)
  | eintr
  | eagain
  | error

inductive Turn where
  | again (ctx : SendContext)
  | blocked (ctx : SendContext)
  | ended (ctx : SendContext) (how : SendEnd)

namespace SendContext

def isTransient (ctx : SendContext) : Bool :=
  match ctx.origin with
  | .blob .. => false
  | .transient .. => true

/-- What `ptr` points into. Memory that has been freed may hold anything. -/
def memory (s : State) (generation : ℕ) (stale : Bytes) (ctx : SendContext) : Bytes :=
  match ctx.origin with
  | .blob .. => ctx.buf
  | .transient old mimeType =>
    if old = generation then
      ((s.transient.find? (fun e => e.1 = mimeType)).map Prod.snd).getD stale
    else stale

/-- The transient data is read whenever `write` is called. -/
def accesses (ctx : SendContext) : List Access :=
  match ctx.origin with
  | .blob .. => []
  | .transient generation _ => [.read generation]

/-- The first part of the loop: fill the buffer if it is empty. -/
def fill (t : Tables) (ctx : SendContext) : Except SendEnd SendContext :=
  match ctx.origin with
  | .transient .. => .ok ctx
  | .blob dataId expired =>
    if ctx.remaining = 0 then
      let len := min (ctx.sz - ctx.off) sendBufsize
      if len = 0 then .error .done
      else
        match if expired then none else t.dataOf dataId with
        | none => .error .readFailed
        | some data => .ok { ctx with
            buf := (data.drop ctx.off).take len
            ptr := 0
            remaining := len
            off := ctx.off + len }
    else .ok ctx

def advance (memory : Bytes) (w : ℕ) (ctx : SendContext) : SendContext :=
  { ctx with
    sent := ctx.sent ++ (memory.drop ctx.ptr).take w
    ptr := ctx.ptr + w
    remaining := ctx.remaining - w }

/-- The body of the loop of `write_callback`. An interrupted `write` is called again at once. -/
def turn (s : State) (generation : ℕ) (stale : Bytes) (out : Written) (ctx : SendContext) : Turn :=
  match ctx.fill s.db.tables with
  | .error how => .ended ctx how
  | .ok ctx =>
    match out with
    | .eintr => .again ctx
    | .eagain => .blocked ctx
    | .error => .ended ctx .writeFailed
    | .wrote n =>
      let ctx := ctx.advance (ctx.memory s generation stale) (min (n + 1) ctx.remaining)
      if ctx.isTransient && ctx.remaining = 0 then .ended ctx .done else .again ctx

/-- The loop, given how its calls of `write` turn out; when no more is said the descriptor is
not writable. -/
def writeLoop (s : State) (generation : ℕ) (stale : Bytes) : List Written → SendContext → Turn
  | [], ctx => ctx.turn s generation stale .eagain
  | out :: outs, ctx =>
    match ctx.turn s generation stale out with
    | .again ctx => writeLoop s generation stale outs ctx
    | .blocked ctx => .blocked ctx
    | .ended ctx how => .ended ctx how

/-- A handle on a row that is not there any more has expired. No handler inserts a row after it
has deleted one. -/
def expire (t : Tables) (ctx : SendContext) : SendContext :=
  match ctx.origin with
  | .transient .. => ctx
  | .blob dataId expired =>
    { ctx with origin := .blob dataId (expired || (t.dataOf dataId).isNone) }

end SendContext

namespace Pasting

def accept (setup : Setup) (mimeType : CString) (fd : ℕ) (x : Pasting) : Option SendContext :=
  if x.state.id = -1 then none
  else if !setup.setFdNonblocking then none
  else if !setup.malloc then none
  else if x.state.id > 0 then
    match databaseOpenData setup.getData x.state.id mimeType x.state.db with
    | none => none
    | some (dataId, data) =>
      if setup.eventloopAdd then some ⟨fd, .blob dataId false, [], 0, 0, data.length, 0, data, []⟩
      else none
  else
    match x.state.transient.find? (fun e => e.1 = mimeType) with
    | none => none
    | some (_, data) =>
      -- empty data is a NULL pointer
      if data ≠ [] ∧ setup.eventloopAdd then
        some ⟨fd, .transient x.generation mimeType, [], 0, data.length, 0, 0, data, []⟩
      else none

/-- A descriptor in use is not handed out again. -/
def wsignalSend (setup : Setup) (mimeType : CString) (fd : ℕ) (x : Pasting) : Pasting :=
  if x.contexts.any (fun ctx => ctx.fd = fd) then x
  else
    match x.accept setup mimeType fd with
    | none => x
    | some ctx => { x with contexts := ctx :: x.contexts }

def sendContextFree (ctx : SendContext) (how : SendEnd) (x : Pasting) : Pasting :=
  { x with
    contexts := x.contexts.filter (fun other => other.fd ≠ ctx.fd)
    ended := x.ended ++ [(ctx, how)] }

def putContext (ctx : SendContext) (x : Pasting) : Pasting :=
  { x with contexts := x.contexts.map (fun other => if other.fd = ctx.fd then ctx else other) }

def writeCallback (hangup : Bool) (outs : List Written) (stale : Bytes) (ctx : SendContext)
    (x : Pasting) : Pasting :=
  if hangup then x.sendContextFree ctx .hangup
  else
    let result := ctx.writeLoop x.state x.generation stale outs
    let x := { x with trace := x.trace ++ ctx.accesses }
    match result with
    | .ended ctx how => x.sendContextFree ctx how
    | .blocked ctx => x.putContext ctx
    | .again ctx => x.putContext ctx

def clearsTransient (s : State) : Event → Bool
  | .selection name (some _) _ =>
    match s.findSeat name.1 with
    | none => false
    | some seat => State.reaches name.2 seat && !seat.mimeTypes.isEmpty
  | _ => false

/-- Any event of the daemon. A restart frees all contexts first. -/
def handle (i : Input) (x : Pasting) : Pasting :=
  match i.event with
  | .restart _ =>
    { state := Swayclip.step x.state i
      generation := x.generation + 1
      contexts := []
      trace := x.trace ++ [.freed x.generation]
      ended := x.ended ++ x.contexts.map (fun ctx => (ctx, .exit)) }
  | event =>
    let state := Swayclip.step x.state i
    let contexts := x.contexts.map (SendContext.expire state.db.tables)
    if clearsTransient x.state event then
      { x with
        state := state
        generation := x.generation + 1
        contexts := contexts
        trace := x.trace ++ [.freed x.generation] }
    else { x with state := state, contexts := contexts }

inductive Wakeup where
  | event (i : Input)
  | send (setup : Setup) (mimeType : CString) (fd : ℕ)
  | writable (fd : ℕ) (hangup : Bool) (outs : List Written) (stale : Bytes)

def step (x : Pasting) : Wakeup → Pasting
  | .event i => x.handle i
  | .send setup mimeType fd => x.wsignalSend setup mimeType fd
  | .writable fd hangup outs stale =>
    match x.contexts.find? (fun ctx => ctx.fd = fd) with
    | none => x
    | some ctx => x.writeCallback hangup outs stale ctx

def start (config : Config) (a : Ambient) : Pasting := ⟨boot config a, 0, [], [], []⟩

end Pasting

end Swayclip
