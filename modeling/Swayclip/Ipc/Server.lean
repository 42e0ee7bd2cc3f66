import Swayclip.Event.Sound
import Swayclip.Ipc.Payload

/-! # The connections of the server

`struct ipc` over the event loop. A client is served from the callback of its source: what can
be read is handled, what is queued is written as far as the socket takes it, and the source is
polled for output as long as something is left. Requests and events queue messages and start
the polling. What `request_callback` calls is left to the runs.
-/

namespace Swayclip
open Library Library.Runs

/-- `EPOLLIN`, `EPOLLOUT`, `EPOLLERR` and `EPOLLHUP`. -/
def epollin : ℕ := 1
def epollout : ℕ := 4
def epollerr : ℕ := 8
def epollhup : ℕ := 16

/-- `struct ipc_client` with the descriptor and the write queue of its `ict`. It is the user data
of `source`. -/
structure Connection where
  fd : ℕ
  source : ℕ
  events : List EventFlag
  hold : UInt32
  holdArr : List Request
  pendingEvents : List EventMsg
  handlingReq : Bool
  writeQueue : List IpcWrite

/-- The loop, and `connections` with the client that came last in front. -/
structure Server where
  loop : EventLoop
  connections : List Connection

/-- The text of a JSON value, unless the value could not be built, and the descriptor with the
data of a reply. -/
structure Rendering where
  text : Json → Option Bytes
  memfd : Bytes → ℕ

/-- A call that `request_callback` makes for the client that it serves, or an event for all. -/
inductive IpcCall where
  | event (msg : EventMsg)
  | send (msg : Message)
  | sendError (desc : Bytes)
  | sendSuccess
  | sendSuccessFd (data : Bytes)
  | setEvents (events : List EventFlag)
  | addHold (n : ℤ)

/-- What a client's callback finds: the messages that `ipc_ct_read` hands over, each with what
`request_callback` does for the requests that are served then, whether reading succeeds, and
what `sendmsg` yields until it would block. -/
structure Activity where
  messages : List (Option Request × (ℕ → List IpcCall))
  readOk : Bool
  sends : List SendMsg

/-- What happens. Outside of this file, callbacks use the loop for descriptors of their own, and
may emit events at any time. -/
inductive ServerInput where
  | outside (i : LoopInput)
  | event (msg : EventMsg)
  | accept (fd : ℕ) (ok : Bool)
  | client (act : Activity)

namespace Connection

def ipcCtWriteMsg (r : Rendering) (msg : Message) (c : Connection) : Connection :=
  let out := msg.outgoing r.memfd
  { c with writeQueue :=
      Swayclip.ipcCtWriteMsg out.type (r.text out.payload) out.scmFd c.writeQueue }

/-- An event for a client whose own request is being handled waits. -/
def takeEvent (r : Rendering) (msg : EventMsg) (c : Connection) : Connection :=
  if c.handlingReq then { c with pendingEvents := c.pendingEvents ++ [msg] }
  else c.ipcCtWriteMsg r (.event msg)

end Connection

namespace Server

def init : Server := ⟨EventLoop.init, []⟩

def findConnection (fd : ℕ) (s : Server) : Option Connection :=
  s.connections.find? (fun c => c.fd = fd)

/-- Act on the client with the descriptor. -/
def onConnection (fd : ℕ) (f : Connection → Connection) (s : Server) : Server :=
  { s with connections := s.connections.map (fun c => if c.fd = fd then f c else c) }

/-- A call of `eventloop_mod` whose result is not looked at. -/
def eventloopMod (fd events : ℕ) (s : Server) : Server :=
  { s with loop := (s.loop.eventloopMod fd events).2 }

/-- After every change to its queues, a client is polled for output. -/
def post (fd : ℕ) (f : Connection → Connection) (s : Server) : Server :=
  (s.onConnection fd f).eventloopMod fd (epollin ||| epollout)

def ipcClientFlushEvents (r : Rendering) (fd : ℕ) (s : Server) : Server :=
  match s.findConnection fd with
  | none => s
  | some c =>
    (c.pendingEvents.foldl (fun s msg => s.post fd (Connection.ipcCtWriteMsg r (.event msg)))
      s).onConnection fd (fun c => { c with pendingEvents := [] })

/-- The body of the loop of `ipc_emit_event`. -/
def emitTo (r : Rendering) (msg : EventMsg) (s : Server) (fd : ℕ) : Server :=
  match s.findConnection fd with
  | none => s
  | some c => if msg.flag ∈ c.events then s.post fd (Connection.takeEvent r msg) else s

def ipcEmitEvent (r : Rendering) (msg : EventMsg) (s : Server) : Server :=
  if (r.text (Message.event msg).toJson).isNone then s
  else (s.connections.map Connection.fd).foldl (emitTo r msg) s

def ipcEventSubscribed (event : EventFlag) (s : Server) : Bool :=
  s.connections.any (fun c => event ∈ c.events)

/-- The common shape of the functions `ipc_event_entry_add` to `ipc_event_entry_state`. -/
def ipcEvent (r : Rendering) (msg : EventMsg) (s : Server) : Server :=
  if !s.ipcEventSubscribed msg.flag then s else s.ipcEmitEvent r msg

def ipcClientSend (r : Rendering) (fd : ℕ) (msg : Message) (s : Server) : Server :=
  if (r.text msg.toJson).isNone then s else s.post fd (Connection.ipcCtWriteMsg r msg)

def ipcClientSendError (r : Rendering) (fd : ℕ) (desc : Bytes) (s : Server) : Server :=
  s.post fd (Connection.ipcCtWriteMsg r (.error (desc.take 255)))

def ipcClientSendSuccess (r : Rendering) (fd : ℕ) (s : Server) : Server :=
  s.post fd (Connection.ipcCtWriteMsg r (.success none))

def ipcClientSendSuccessFd (r : Rendering) (fd : ℕ) (data : Bytes) (s : Server) : Server :=
  s.post fd (Connection.ipcCtWriteMsg r (.success (some data)))

def ipcClientSetEvents (fd : ℕ) (events : List EventFlag) (s : Server) : Server :=
  s.onConnection fd (fun c => { c with events := events })

def ipcClientAddHold (fd : ℕ) (n : ℤ) (s : Server) : Server :=
  s.onConnection fd (fun c => { c with hold := c.hold + UInt32.ofInt n })

def call (r : Rendering) (fd : ℕ) (s : Server) : IpcCall → Server
  | .event msg => s.ipcEvent r msg
  | .send msg => s.ipcClientSend r fd msg
  | .sendError desc => s.ipcClientSendError r fd desc
  | .sendSuccess => s.ipcClientSendSuccess r fd
  | .sendSuccessFd data => s.ipcClientSendSuccessFd r fd data
  | .setEvents events => s.ipcClientSetEvents fd events
  | .addHold n => s.ipcClientAddHold fd n

/-- A request is handled; it is known by what is called. -/
def handleRequest (r : Rendering) (fd : ℕ) (calls : List IpcCall) (s : Server) : Server :=
  (calls.foldl (call r fd)
    (s.onConnection fd (fun c => { c with handlingReq := true }))).onConnection
      fd (fun c => { c with handlingReq := false })

/-- The held requests, `n` of them, the first one with these calls. -/
def handleRequests (r : Rendering) (fd : ℕ) (calls : ℕ → List IpcCall) (n : ℕ) (s : Server) :
    Server :=
  (List.range n).foldl (fun s i => s.handleRequest r fd (calls i)) s

/-- `message_callback`; `none` is a message that is not a request. -/
def messageCallback (r : Rendering) (fd : ℕ) (msg : Option Request) (calls : ℕ → List IpcCall)
    (s : Server) : Server :=
  let s := match msg, s.findConnection fd with
    | some req, some c =>
      if c.hold > 0 then
        let held := c.holdArr ++ [req]
        if c.hold - 1 = 0 then
          let s := s.onConnection fd (fun c => { c with hold := 0, holdArr := held })
          (s.handleRequests r fd calls held.length).onConnection fd
            (fun c => { c with holdArr := [] })
        else s.onConnection fd (fun c => { c with hold := c.hold - 1, holdArr := held })
      else s.handleRequest r fd (calls 0)
    | _, _ => s
  s.ipcClientFlushEvents r fd

/-- `ipc_client_free`; the socket is closed with the `ict`. -/
def ipcClientFree (fd : ℕ) (s : Server) : Server where
  loop := (s.loop.eventloopDel fd).2.closeFd fd
  connections := s.connections.filter (fun c => c.fd ≠ fd)

/-- `ipc_ct_write` and what `client_callback` makes of it: to be told to poll is no failure. -/
def ipcCtWrite (fd : ℕ) (sends : List SendMsg) (s : Server) : Bool × Server :=
  match s.findConnection fd with
  | none => (true, s)
  | some c =>
    match Swayclip.ipcCtWrite c.writeQueue (sends ++ [.eagain]) with
    | (ret, queue, _) =>
      (ret.any (fun ret => ret.1 || ret.2),
        s.onConnection fd (fun c => { c with writeQueue := queue }))

def ipcCtHasPendingWrites (fd : ℕ) (s : Server) : Bool :=
  (s.findConnection fd).any (fun c => !c.writeQueue.isEmpty)

/-- The part of `client_callback` that reads. -/
def readMessages (r : Rendering) (fd events : ℕ) (act : Activity) (s : Server) : Bool × Server :=
  if events &&& epollin ≠ 0 then
    (act.readOk, act.messages.foldl (fun s m => s.messageCallback r fd m.1 m.2) s)
  else (true, s)

def clientCallback (r : Rendering) (fd events : ℕ) (act : Activity) (s : Server) :
    Bool × Server :=
  if events = 0 then (false, s)
  else
    let (ret, s) := s.readMessages r fd events act
    let (ret, s) := if ret && events &&& epollout ≠ 0 then s.ipcCtWrite fd act.sends else (ret, s)
    if !ret || events &&& (epollhup ||| epollerr) ≠ 0 then (true, s.ipcClientFree fd)
    else if s.ipcCtHasPendingWrites fd then (false, s)
    else if (s.loop.eventloopMod fd epollin).1 then (false, s.eventloopMod fd epollin)
    else (true, (s.eventloopMod fd epollin).ipcClientFree fd)

/-- `ipc_add_client`; `ok` tells whether the descriptor can be set up. -/
def ipcAddClient (fd : ℕ) (ok : Bool) (s : Server) : Bool × Server :=
  if !ok then (false, s)
  else
    match s.loop.eventloopAdd fd .normal epollin with
    | (false, loop) => (false, { s with loop := loop })
    | (true, loop) =>
      (true, ⟨loop, ⟨fd, s.loop.used, [], 0, [], [], false, []⟩ :: s.connections⟩)

/-- `accept_callback` once `accept` has come up with a descriptor. -/
def acceptCallback (fd : ℕ) (ok : Bool) (s : Server) : Server :=
  match { s with loop := s.loop.openFd fd }.ipcAddClient fd ok with
  | (true, s) => s
  | (false, s) => { s with loop := s.loop.closeFd fd }

/-! ## Steps -/

/-- It is no client's source or descriptor that is dealt with. -/
def Foreign (s : Server) : LoopInput → Prop
  | .call (.add fd _ _) | .call (.del fd) | .call (.mod fd _) | .call (.close fd) =>
    ∀ c ∈ s.connections, c.fd ≠ fd
  | .dispatch => ∀ e ∈ s.loop.waiting.head?, ∀ c ∈ s.connections, c.source ≠ e.1
  | .ret _ => ∀ source ∈ s.loop.current, ∀ c ∈ s.connections, c.source ≠ source
  | _ => True

instance (s : Server) (i : LoopInput) : Decidable (s.Foreign i) := by
  unfold Foreign
  split <;> infer_instance

/-- The callback of the next event, if that is for a client. -/
def serveClient (r : Rendering) (act : Activity) (s : Server) : Server :=
  match s.loop.waiting.head?, s.loop.current with
  | some e, none =>
    match s.connections.find? (fun c => c.source = e.1) with
    | none => s
    | some c =>
      match { s with loop := s.loop.dispatch }.clientCallback r c.fd e.2 act with
      | (remove, s) => { s with loop := s.loop.ret remove }
  | _, _ => s

/-- What cannot happen has no effect. A descriptor that `accept` comes up with is new, and it does
so within a callback. -/
def step (r : Rendering) (s : Server) : ServerInput → Server
  | .outside i => if s.Foreign i then { s with loop := s.loop.step i } else s
  | .event msg => s.ipcEvent r msg
  | .accept fd ok =>
    if s.loop.current.isSome && !s.loop.isOpen fd then s.acceptCallback fd ok else s
  | .client act => s.serveClient r act

end Server

end Swayclip
