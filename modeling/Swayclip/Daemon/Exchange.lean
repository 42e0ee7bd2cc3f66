import Swayclip.Daemon.Clients
import Swayclip.Daemon.Replies

/-! # One reply to each request

The events that a request emits to its own client wait for the reply, those of a batch of held
requests for all replies. What a request writes is found by serving it with nothing delayed:
its reply, and each event when it is emitted.
-/

namespace Swayclip
open Library.Runs

/-- A request that is executed, and what it writes to its client when nothing is delayed. -/
structure Exchange where
  request : Request
  messages : List Message

namespace Exchange

def replies (x : Exchange) : List Message := x.messages.filter (fun msg => !msg.isEvent)

/-- The events that the request emits to its client, in order. -/
def events (x : Exchange) : List Message := x.messages.filter Message.isEvent

end Exchange

namespace Client

/-- The client with its queues emptied, to which events are sent at once. -/
def undelayed (client : Client) : Client :=
  { client with handlingReq := false, pendingEvents := [], writeQueue := [] }

/-- Between steps nothing is delayed, and requests are kept only while some are to be held. -/
structure Idle (client : Client) : Prop where
  handlingReq : client.handlingReq = false
  pendingEvents : client.pendingEvents = []
  holdArr : client.hold = 0 → client.holdArr = []

end Client

namespace State

/-- `request_callback` for the client, with nothing delayed. -/
def exchange (a : Ambient) (fd : ℕ) (req : Request) (s : State) : Exchange :=
  ⟨req, match ((s.onClient fd Client.undelayed).requestCallback a fd req).findClient fd with
    | none => []
    | some client => client.writeQueue⟩

/-- What the requests of a batch write, each in the state that it finds. -/
def exchanges (ambient : ℕ → Ambient) (fd : ℕ) : ℕ → List Request → State → List Exchange
  | _, [], _ => []
  | i, req :: reqs, s =>
    s.exchange (ambient i) fd req ::
      exchanges ambient fd (i + 1) reqs (s.handleRequest (ambient i) fd req)

/-- The requests of the client that are executed in a step. -/
def executed (fd : ℕ) (s : State) (i : Input) : List Exchange :=
  match i.event, s.findClient fd with
  | .message fd' (some req), some client =>
    if fd' = fd then
      (s.onClient fd (holdBack client req)).exchanges i.ambient fd 0 (batch client req)
    else []
  | _, _ => []

end State

/-- The request that the client sends. -/
def Input.received (fd : ℕ) (i : Input) : Option Request :=
  match i.event with
  | .message fd' (some req) => if fd' = fd then some req else none
  | _ => none

/-- The session and the connection of the client go on. -/
structure Input.Keeps (fd : ℕ) (i : Input) : Prop where
  session : ∀ config, i.event ≠ .restart config
  connected : i.event ≠ .disconnect fd

/-! ## What a client sees of the outputs -/

namespace Client

section Receive
variable {fd : ℕ} {c d : Client}

@[simp] theorem receive_fd (output : Output) : (c.receive fd output).fd = c.fd := by
  cases output with
  | reply | subscribe | hold => simp only [receive]; split <;> rfl
  | emit msg => exact emit_fd msg c

@[simp] theorem receive_handlingReq (output : Output) :
    (c.receive fd output).handlingReq = c.handlingReq := by
  cases output with
  | reply | subscribe | hold => simp only [receive]; split <;> rfl
  | emit msg => exact emit_handlingReq msg c

@[simp] theorem receive_holdArr (output : Output) :
    (c.receive fd output).holdArr = c.holdArr := by
  cases output with
  | reply | subscribe | hold => simp only [receive]; split <;> rfl
  | emit msg => exact emit_holdArr msg c

@[simp] theorem receiveAll_nil : c.receiveAll fd [] = c := rfl

@[simp] theorem receiveAll_cons (output : Output) (outputs : List Output) :
    c.receiveAll fd (output :: outputs) = (c.receive fd output).receiveAll fd outputs := rfl

/-- What no output changes. -/
theorem receiveAll_keeps (fd : ℕ) (outputs : List Output) : (c.receiveAll fd outputs).fd = c.fd ∧
    (c.receiveAll fd outputs).handlingReq = c.handlingReq ∧
      (c.receiveAll fd outputs).holdArr = c.holdArr := by
  induction outputs generalizing c with
  | nil => exact ⟨rfl, rfl, rfl⟩
  | cons output outputs ih => simpa using @ih (c.receive fd output)

/-- The number of requests to hold is added up, with overflow. -/
theorem receiveAll_hold (hfd : c.fd = fd) (outputs : List Output) :
    (c.receiveAll fd outputs).hold =
      c.hold + UInt32.ofInt (State.total (outputs.filterMap Output.hold?)) := by
  induction outputs generalizing c with
  | nil => exact (UInt32.add_zero c.hold).symm
  | cons output outputs ih =>
    rw [receiveAll_cons, ih ((receive_fd output).trans hfd)]
    cases output with
    | reply => simp [receive, hfd, ipcCtWriteMsg, List.filterMap_cons, Output.hold?]
    | subscribe => simp [receive, hfd, ipcClientSetEvents, List.filterMap_cons, Output.hold?]
    | emit => simp [receive, List.filterMap_cons, Output.hold?]
    | hold n =>
      have hn : Output.hold? (.hold n) = some n := rfl
      rw [List.filterMap_cons_some hn, State.total, UInt32.ofInt_add, ← UInt32.add_assoc]
      simp [receive, hfd, ipcClientAddHold]

/-- What becomes of the messages `messages`, written to `d` at once, at a client whose request
is being handled: the events are set aside. -/
structure Delayed (messages : List Message) (c d c' d' : Client) : Prop where
  events : c'.events = d'.events
  direct : d'.writeQueue = d.writeQueue ++ messages
  replies : c'.writeQueue = c.writeQueue ++ messages.filter (fun msg => !msg.isEvent)
  pending : c'.pendingEvents.map Message.event =
    c.pendingEvents.map Message.event ++ messages.filter Message.isEvent

theorem Delayed.trans {messages more : List Message} {c' d' c'' d'' : Client}
    (h : Delayed messages c d c' d') (hmore : Delayed more c' d' c'' d'') :
    Delayed (messages ++ more) c d c'' d'' := by
  constructor
  · exact hmore.events
  · rw [hmore.direct, h.direct, List.append_assoc]
  · rw [hmore.replies, h.replies, List.filter_append, List.append_assoc]
  · rw [hmore.pending, h.pending, List.filter_append, List.append_assoc]

/-- Nothing is written. -/
theorem Delayed.nothing {c' d' : Client} (hevents : c'.events = d'.events)
    (hd : d'.writeQueue = d.writeQueue) (hc : c'.writeQueue = c.writeQueue)
    (hpending : c'.pendingEvents = c.pendingEvents) : Delayed [] c d c' d' :=
  ⟨hevents, by simp [hd], by simp [hc], by simp [hpending]⟩

theorem receive_delayed (hc : c.fd = fd) (hd : d.fd = fd) (hevents : c.events = d.events)
    (hdelayed : c.handlingReq = true) (hdirect : d.handlingReq = false) (output : Output)
    (hreply : ∀ msg ∈ output.reply?, msg.isEvent = false) :
    ∃ messages, Delayed messages c d (c.receive fd output) (d.receive fd output) ∧
      messages.filter (fun msg => !msg.isEvent) = output.reply?.toList := by
  cases output with
  | reply msg =>
    have hmsg : msg.isEvent = false := hreply msg rfl
    refine ⟨[msg], ⟨?_, ?_, ?_, ?_⟩, ?_⟩
    · simpa [receive, hc, hd, ipcCtWriteMsg] using hevents
    · simp [receive, hd, ipcCtWriteMsg]
    · simp [receive, hc, ipcCtWriteMsg, hmsg]
    · simp [receive, hc, ipcCtWriteMsg, hmsg]
    · simp [hmsg, Output.reply?]
  | emit msg =>
    by_cases hflag : msg.flag ∈ c.events
    · have hflag' : msg.flag ∈ d.events := by rwa [← hevents]
      refine ⟨[.event msg], ⟨?_, ?_, ?_, ?_⟩, rfl⟩
      · simpa [receive] using hevents
      · simp [receive, emit, hflag', hdirect, ipcCtWriteMsg]
      · simp [receive, emit, hflag, hdelayed, Message.isEvent]
      · rw [receive, emit, if_pos hflag, if_pos hdelayed, List.map_append]
        rfl
    · have hflag' : msg.flag ∉ d.events := by rwa [← hevents]
      refine ⟨[], Delayed.nothing ?_ ?_ ?_ ?_, rfl⟩
      · simpa [receive] using hevents
      · simp [receive, emit, hflag']
      · simp [receive, emit, hflag]
      · simp [receive, emit, hflag]
  | subscribe events =>
    refine ⟨[], Delayed.nothing ?_ ?_ ?_ ?_, rfl⟩
    · simp [receive, hc, hd, ipcClientSetEvents]
    · simp [receive, hd, ipcClientSetEvents]
    · simp [receive, hc, ipcClientSetEvents]
    · simp [receive, hc, ipcClientSetEvents]
  | hold n =>
    refine ⟨[], Delayed.nothing ?_ ?_ ?_ ?_, rfl⟩
    · simpa [receive, hc, hd, ipcClientAddHold] using hevents
    · simp [receive, hd, ipcClientAddHold]
    · simp [receive, hc, ipcClientAddHold]
    · simp [receive, hc, ipcClientAddHold]

/-- The reply of the first output comes first. -/
theorem replies_cons (output : Output) (outputs : List Output) :
    (output :: outputs).filterMap Output.reply? =
      output.reply?.toList ++ outputs.filterMap Output.reply? := by
  cases output with
  | reply | emit | subscribe | hold => rfl

theorem receiveAll_delayed (hc : c.fd = fd) (hd : d.fd = fd) (hevents : c.events = d.events)
    (hdelayed : c.handlingReq = true) (hdirect : d.handlingReq = false) (outputs : List Output)
    (hreplies : ∀ msg ∈ outputs.filterMap Output.reply?, msg.isEvent = false) :
    ∃ messages, Delayed messages c d (c.receiveAll fd outputs) (d.receiveAll fd outputs) ∧
      messages.filter (fun msg => !msg.isEvent) = outputs.filterMap Output.reply? := by
  induction outputs generalizing c d with
  | nil => exact ⟨[], Delayed.nothing hevents rfl rfl rfl, rfl⟩
  | cons output outputs ih =>
    rw [replies_cons, List.forall_mem_append] at hreplies
    obtain ⟨first, hfirst, hreply⟩ := receive_delayed hc hd hevents hdelayed hdirect output
      (fun msg hmsg => hreplies.1 msg (Option.mem_toList.mpr hmsg))
    obtain ⟨rest, hrest, hothers⟩ := ih ((receive_fd output).trans hc)
      ((receive_fd output).trans hd) hfirst.events ((receive_handlingReq output).trans hdelayed)
      ((receive_handlingReq output).trans hdirect) hreplies.2
    refine ⟨first ++ rest, hfirst.trans hrest, ?_⟩
    rw [List.filter_append, hreply, hothers, replies_cons]

end Receive

end Client

namespace State

/-! ## Serving a batch -/

theorem Tells.findClient {fd : ℕ} {outputs : List Output} {f : State → State} {s : State}
    (h : Tells fd outputs f s) (fd' : ℕ) (g : Client → Client) :
    (f (s.onClient fd' g)).findClient fd =
      ((s.onClient fd' g).findClient fd).map (Client.receiveAll fd outputs) := by
  have hipc : (f (s.onClient fd' g)).ipc =
      (s.onClient fd' g).ipc.map (Client.receiveAll fd outputs) :=
    congrArg State.ipc (h (s.onClient fd' g).ipc)
  rw [State.findClient, hipc]
  exact find?_map_clients (fun _ => (Client.receiveAll_keeps fd outputs).1) _ fd

/-- What the client looks like once the requests `xs` have been handled. -/
structure Answered (xs : List Exchange) (c c' : Client) : Prop where
  fd : c'.fd = c.fd
  handlingReq : c'.handlingReq = false
  holdArr : c'.holdArr = c.holdArr
  hold : c'.hold = c.hold + UInt32.ofInt (total ((xs.map Exchange.request).flatMap heldBy))
  replies : c'.writeQueue = c.writeQueue ++ xs.flatMap Exchange.replies
  pending : c'.pendingEvents.map Message.event =
    c.pendingEvents.map Message.event ++ xs.flatMap Exchange.events
  one : ∀ x ∈ xs, x.replies.length = 1

theorem Answered.nil {c : Client} (h : c.handlingReq = false) : Answered [] c c :=
  ⟨rfl, h, rfl, (UInt32.add_zero c.hold).symm, by simp, by simp, by simp⟩

theorem Answered.trans {xs ys : List Exchange} {c c' c'' : Client} (h : Answered xs c c')
    (hmore : Answered ys c' c'') : Answered (xs ++ ys) c c'' := by
  constructor
  · exact hmore.fd.trans h.fd
  · exact hmore.handlingReq
  · exact hmore.holdArr.trans h.holdArr
  · rw [hmore.hold, h.hold, List.map_append, List.flatMap_append, total_append,
      UInt32.ofInt_add, UInt32.add_assoc]
  · rw [hmore.replies, h.replies, List.flatMap_append, List.append_assoc]
  · rw [hmore.pending, h.pending, List.flatMap_append, List.append_assoc]
  · intro x hx
    exact (List.mem_append.mp hx).elim (h.one x) (hmore.one x)

section Batch
variable {fd : ℕ} {s : State} {c : Client}

/-- The client with its record changed. -/
theorem findClient_onClient_self {f : Client → Client} (hf : ∀ c, (f c).fd = c.fd)
    (hc : s.findClient fd = some c) : (s.onClient fd f).findClient fd = some (f c) := by
  rw [findClient_onClient hf, hc, Option.map_some, if_pos (findClient_fd hc)]

theorem handleRequest_answered (a : Ambient) (req : Request) (hc : s.findClient fd = some c) :
    ∃ c', (s.handleRequest a fd req).findClient fd = some c' ∧
      Answered [s.exchange a fd req] c c' := by
  obtain ⟨outputs, htells, msg, hmsg, hreply, hhold⟩ := requestCallback_replies a fd req s
  let opened : Client := { c with handlingReq := true }
  have hopened := findClient_onClient_self (f := fun c => { c with handlingReq := true })
    (fun _ => rfl) hc
  have hundelayed := findClient_onClient_self (f := Client.undelayed) (fun _ => rfl) hc
  have hserved := htells.findClient fd fun c => { c with handlingReq := true }
  have hdirectly := htells.findClient fd Client.undelayed
  rw [hopened, Option.map_some] at hserved
  rw [hundelayed, Option.map_some] at hdirectly
  have hfd : c.fd = fd := findClient_fd hc
  have hnoEvent : ∀ msg' ∈ outputs.filterMap Output.reply?, msg'.isEvent = false := by
    rw [hreply]
    intro msg' hmsg'
    rwa [List.mem_singleton.mp hmsg']
  obtain ⟨messages, hdelayed, hreplies⟩ := Client.receiveAll_delayed (c := opened)
    (d := c.undelayed) hfd hfd rfl rfl rfl outputs hnoEvent
  have hexchange : s.exchange a fd req = ⟨req, messages⟩ := by
    have hqueue : (c.undelayed.receiveAll fd outputs).writeQueue = messages := hdelayed.direct
    simp only [exchange, hdirectly, hqueue]
  have hkeeps := Client.receiveAll_keeps (c := opened) fd outputs
  refine ⟨{ opened.receiveAll fd outputs with handlingReq := false }, ?_, ?_⟩
  · exact findClient_onClient_self (f := fun c => { c with handlingReq := false }) (fun _ => rfl)
      hserved
  · rw [hexchange]
    constructor
    · exact hkeeps.1
    · rfl
    · exact hkeeps.2.2
    · have hsum := Client.receiveAll_hold (c := opened) hfd outputs
      rw [hhold] at hsum
      simpa using hsum
    · simpa [Exchange.replies] using hdelayed.replies
    · simpa [Exchange.events] using hdelayed.pending
    · intro x hx
      rw [List.mem_singleton.mp hx, Exchange.replies, hreplies, hreply]
      rfl

theorem handleRequests_answered (ambient : ℕ → Ambient) (reqs : List Request) (i : ℕ)
    (hc : s.findClient fd = some c) (hdirect : c.handlingReq = false) :
    ∃ c', (s.handleRequests ambient fd i reqs).findClient fd = some c' ∧
      Answered (s.exchanges ambient fd i reqs) c c' := by
  induction reqs generalizing s c i with
  | nil => exact ⟨c, hc, Answered.nil hdirect⟩
  | cons req reqs ih =>
    obtain ⟨c₁, hc₁, hfirst⟩ := handleRequest_answered (ambient i) req hc
    obtain ⟨c₂, hc₂, hrest⟩ := ih (i + 1) hc₁ hfirst.handlingReq
    exact ⟨c₂, hc₂, hfirst.trans hrest⟩

theorem exchanges_request (ambient : ℕ → Ambient) (reqs : List Request) (i : ℕ) :
    (s.exchanges ambient fd i reqs).map Exchange.request = reqs := by
  induction reqs generalizing s i with
  | nil => rfl
  | cons req reqs ih => simp only [exchanges, List.map_cons, ih, exchange]

end Batch

end State

/-! ## What a client overhears -/

namespace Client

/-- The client has been sent some events, and nothing else happened to it. -/
def Overhears (c c' : Client) : Prop :=
  ∃ msgs : List Message, (∀ msg ∈ msgs, msg.isEvent = true) ∧
    c' = { c with writeQueue := c.writeQueue ++ msgs }

theorem Overhears.refl (c : Client) : c.Overhears c :=
  ⟨[], by simp, by simp⟩

theorem Overhears.trans {c c' c'' : Client} (h : c.Overhears c') (hmore : c'.Overhears c'') :
    c.Overhears c'' := by
  obtain ⟨msgs, hmsgs, rfl⟩ := h
  obtain ⟨more, hmore, rfl⟩ := hmore
  refine ⟨msgs ++ more, ?_, by rw [List.append_assoc]⟩
  intro msg hmsg
  exact (List.mem_append.mp hmsg).elim (hmsgs msg) (hmore msg)

theorem Overhears.handlingReq {c c' : Client} (h : c.Overhears c') :
    c'.handlingReq = c.handlingReq := by
  obtain ⟨msgs, -, rfl⟩ := h
  rfl

/-- A client that is not served is sent each event at once, and nothing of a request of
another client but its events. -/
theorem overhears_receive {fd : ℕ} {c : Client} (hfd : c.fd ≠ fd) (hdirect : c.handlingReq = false)
    (output : Output) : c.Overhears (c.receive fd output) := by
  cases output with
  | reply | subscribe | hold =>
    rw [receive, if_neg hfd]
    exact Overhears.refl c
  | emit msg =>
    by_cases hflag : msg.flag ∈ c.events
    · refine ⟨[.event msg], by simp [Message.isEvent], ?_⟩
      simp [receive, emit, hflag, hdirect, ipcCtWriteMsg]
    · rw [receive, emit, if_neg hflag]
      exact Overhears.refl c

theorem overhears_receiveAll {fd : ℕ} {c : Client} (hfd : c.fd ≠ fd)
    (hdirect : c.handlingReq = false) (outputs : List Output) :
    c.Overhears (c.receiveAll fd outputs) := by
  induction outputs generalizing c with
  | nil => exact Overhears.refl c
  | cons output outputs ih =>
    have hone := overhears_receive hfd hdirect output
    apply hone.trans
    apply ih
    · rwa [receive_fd]
    · rwa [receive_handlingReq]

end Client

namespace State

/-- All that the client notices, if it is connected, is events, sent to it at once. -/
structure Overheard (fd : ℕ) (s s' : State) : Prop where
  absent : s.findClient fd = none → s'.findClient fd = none
  present : ∀ c, s.findClient fd = some c → c.handlingReq = false →
    ∃ c', s'.findClient fd = some c' ∧ c.Overhears c'

section Overheard
variable {fd : ℕ} {s s' s'' : State}

theorem Overheard.of_ipc (h : s'.ipc = s.ipc) : Overheard fd s s' := by
  have hsame : s'.findClient fd = s.findClient fd := by rw [findClient, h, findClient]
  constructor
  · exact hsame.trans
  · exact fun c hc _ => ⟨c, hsame.trans hc, Client.Overhears.refl c⟩

theorem Overheard.trans (h : Overheard fd s s') (hmore : Overheard fd s' s'') :
    Overheard fd s s'' := by
  constructor
  · exact fun hnone => hmore.absent (h.absent hnone)
  · intro c hc hdirect
    obtain ⟨c', hc', hfirst⟩ := h.present c hc hdirect
    obtain ⟨c'', hc'', hrest⟩ := hmore.present c' hc' (hfirst.handlingReq.trans hdirect)
    exact ⟨c'', hc'', hfirst.trans hrest⟩

theorem Tells.overheard {fd' : ℕ} {outputs : List Output} {f : State → State}
    (h : Tells fd' outputs f s) (hfd : fd' ≠ fd) : Overheard fd s (f s) := by
  have hfind := find?_map_clients (fun _ => (Client.receiveAll_keeps fd' outputs).1) s.ipc fd
  rw [← h.ipc] at hfind
  constructor
  · intro hnone
    exact hfind.trans (congrArg (Option.map _) hnone)
  · intro c hc hdirect
    refine ⟨c.receiveAll fd' outputs, hfind.trans (congrArg (Option.map _) hc), ?_⟩
    apply Client.overhears_receiveAll _ hdirect
    rw [findClient_fd hc]
    exact hfd.symm

theorem emit_overheard (msg : EventMsg) (s : State) :
    Overheard fd s { s with ipc := ipcEvent msg s.ipc } :=
  (tells_emit (fd + 1) msg s).overheard (Nat.succ_ne_self fd)

theorem set_overheard (sql : Sql) (ignore : Option SelectionName) (id : ℤ) (s : State) :
    Overheard fd s (s.set sql ignore id) :=
  (tells_set (fd + 1) sql ignore id s).overheard (Nat.succ_ne_self fd)

theorem part_overheard {a : Ambient} (h : Part a s s') : Overheard fd s s' := by
  cases h with
  | database | reset => exact Overheard.of_ipc rfl
  | emit msg => exact emit_overheard msg s
  | set name id => exact set_overheard a.sql (some name) id s

theorem wsignalSelection_overheard (a : Ambient) (name : SelectionName)
    (written : ℕ → Option Bytes) (mimeTypes : List CString) (transient : Bool) (s : State) :
    Overheard fd s (s.wsignalSelection a name written mimeTypes transient) := by
  apply wsignalSelection_preserve (P := fun x => Overheard fd s x) a _ _ name written mimeTypes
    transient (Overheard.of_ipc rfl)
  · exact fun data x hx => hx.trans (Overheard.of_ipc rfl)
  · exact fun x y hpart hx => hx.trans (part_overheard hpart)

/-- Another client's message is overheard. -/
theorem messageCallback_overheard (ambient : ℕ → Ambient) {client : Client} (hfd : client.fd ≠ fd)
    (msg : Option Request) (s : State) : Overheard fd s (s.messageCallback ambient client msg) := by
  apply messageCallback_requests (P := fun x => Overheard fd s x) ambient client _ _ msg
    (Overheard.of_ipc rfl)
  · intro f hf x hx
    have hsame := findClient_onClient_of_ne hf hfd x
    refine ⟨fun hnone => hsame.trans (hx.absent hnone), fun c hc hdirect => ?_⟩
    obtain ⟨c', hc', hover⟩ := hx.present c hc hdirect
    exact ⟨c', hsame.trans hc', hover⟩
  · intro n req x hx
    obtain ⟨outputs, htells, -⟩ := requestCallback_replies (ambient n) client.fd req x
    exact hx.trans (htells.overheard hfd)

end Overheard

/-- A delivered selection event is overheard by everybody. -/
theorem delivered_overheard {fd : ℕ} {s : State} (a : Ambient) (name : SelectionName)
    (written : ℕ → Option Bytes) (seat : Seat) :
    Overheard fd s (((s.withOffer name seat).wsignalSelection a name written seat.mimeTypes
      seat.transient).clearMimeTypes name.1) := by
  have hoffer : Overheard fd s (s.withOffer name seat) := Overheard.of_ipc rfl
  refine (hoffer.trans (wsignalSelection_overheard a name written seat.mimeTypes seat.transient
    _)).trans ?_
  exact Overheard.of_ipc rfl

/-- Whatever is not its own message, a connected client overhears. -/
theorem step_overhears {fd : ℕ} {s : State} {i : Input} {c : Client} (hkeeps : i.Keeps fd)
    (hother : ∀ msg, i.event ≠ .message fd msg) (hc : s.findClient fd = some c)
    (hdirect : c.handlingReq = false) :
    ∃ c', (step s i).findClient fd = some c' ∧ c.Overhears c' := by
  have htransition := step_transition s i
  generalize step s i = s' at htransition ⊢
  cases htransition with
  | quiet hevent h hclients =>
    cases hclients fd with
    | same hsame => exact ⟨c, hsame.trans hc, Client.Overhears.refl c⟩
    | connected _ hold => exact absurd (hc.symm.trans hold) (Option.some_ne_none c)
    | gone hgone => exact absurd hgone hkeeps.connected
  | restarted hevent => exact absurd hevent (hkeeps.session _)
  | delivered hevent h => exact (delivered_overheard ..).present c hc hdirect
  | @served fd' msg client hevent hclient =>
    have hfd : client.fd ≠ fd := by
      rintro rfl
      obtain rfl := findClient_fd hclient
      exact hother msg hevent
    exact (messageCallback_overheard i.ambient hfd msg s).present c hc hdirect

/-! ## A step of the client's run -/

/-- What a step does to a client that keeps its connection. -/
structure Progress (fd : ℕ) (s : State) (i : Input) (c c' : Client) : Prop where
  idle : c'.Idle
  order : (s.executed fd i).map Exchange.request ++ c'.holdArr =
    c.holdArr ++ (i.received fd).toList
  one : ∀ x ∈ s.executed fd i, x.replies.length = 1
  hold : c'.hold = (if (i.received fd).isSome ∧ c.hold > 0 then c.hold - 1 else c.hold) +
    UInt32.ofInt (total (((s.executed fd i).map Exchange.request).flatMap heldBy))
  queue : ∃ events : List Message, (∀ msg ∈ events, msg.isEvent = true) ∧
    c'.writeQueue = c.writeQueue ++ (s.executed fd i).flatMap Exchange.replies ++ events ∧
    ((i.received fd).isSome → events = (s.executed fd i).flatMap Exchange.events)

section Progress
variable {fd : ℕ} {s : State} {i : Input} {c c' : Client}

theorem Progress.of_overhears (hidle : c.Idle) (hexecuted : s.executed fd i = [])
    (hreceived : i.received fd = none) (h : c.Overhears c') : Progress fd s i c c' := by
  obtain ⟨msgs, hmsgs, rfl⟩ := h
  constructor
  · exact ⟨hidle.handlingReq, hidle.pendingEvents, hidle.holdArr⟩
  · simp [hexecuted, hreceived]
  · simp [hexecuted]
  · simp only [hexecuted, hreceived, Option.isSome_none, Bool.false_eq_true, false_and, if_false]
    exact (UInt32.add_zero c.hold).symm
  · exact ⟨msgs, hmsgs, by simp [hexecuted], by simp [hreceived]⟩

theorem executed_message {req : Request} (hevent : i.event = .message fd (some req))
    (hc : s.findClient fd = some c) : s.executed fd i =
      (s.onClient fd (holdBack c req)).exchanges i.ambient fd 0 (batch c req) := by
  simp only [executed, hevent, hc, if_true]

/-- The requests that are executed and those that stay held are those that were held and the
new one. -/
theorem batch_append_held {req : Request} (hidle : c.Idle) :
    batch c req ++ (release c (holdBack c req c)).holdArr = c.holdArr ++ [req] := by
  by_cases hhold : c.hold > 0
  · by_cases hlast : c.hold - 1 = 0
    · simp [batch, release, hhold, hlast]
    · simp [batch, release, holdBack, hhold, hlast]
  · have hempty : c.holdArr = [] := by
      apply hidle.holdArr
      simpa using hhold
    simp [batch, release, holdBack, hhold, hempty]

theorem events_isEvent {xs : List Exchange} {msg : Message}
    (h : msg ∈ xs.flatMap Exchange.events) : msg.isEvent = true := by
  obtain ⟨x, -, hx⟩ := List.mem_flatMap.mp h
  exact (List.mem_filter.mp hx).2

@[simp] theorem release_keeps (c c' : Client) : (release c c').hold = c'.hold ∧
    (release c c').handlingReq = c'.handlingReq ∧ (release c c').writeQueue = c'.writeQueue ∧
      (release c c').pendingEvents = c'.pendingEvents := by
  rw [release]
  split <;> exact ⟨rfl, rfl, rfl, rfl⟩

theorem holdBack_keeps (c : Client) (req : Request) : (holdBack c req c).handlingReq =
    c.handlingReq ∧ (holdBack c req c).writeQueue = c.writeQueue ∧
      (holdBack c req c).pendingEvents = c.pendingEvents ∧
        (holdBack c req c).hold = if c.hold > 0 then c.hold - 1 else c.hold := by
  rw [holdBack]
  split <;> exact ⟨rfl, rfl, rfl, rfl⟩

theorem release_holdArr {c c₁ c₂ : Client} (h : c₂.holdArr = c₁.holdArr) :
    (release c c₂).holdArr = (release c c₁).holdArr := by
  simp only [release]
  split
  · rfl
  · exact h

/-- Requests are kept after a batch only while more are to be held. -/
theorem held_after_batch {req : Request} {c₂ : Client} (hidle : c.Idle)
    (hholdArr : c₂.holdArr = (holdBack c req c).holdArr)
    (hhold : batch c req = [] → c₂.hold = (holdBack c req c).hold) (hzero : c₂.hold = 0) :
    (release c c₂).holdArr = [] := by
  rw [release_holdArr hholdArr]
  by_cases hheld : c.hold > 0
  · by_cases hlast : c.hold - 1 = 0
    · simp [release, hheld, hlast]
    · have hbatch : batch c req = [] := by simp [batch, hheld, hlast]
      have hnext : (holdBack c req c).hold = c.hold - 1 := by simp [holdBack, hheld]
      rw [hhold hbatch, hnext] at hzero
      exact absurd hzero hlast
  · have hempty : c.holdArr = [] := by
      apply hidle.holdArr
      simpa using hheld
    simp [release, holdBack, hheld, hempty]

/-- The client's own request, once it has been dealt with. -/
theorem Progress.of_request {req : Request} (hidle : c.Idle) (hc : s.findClient fd = some c)
    (hevent : i.event = .message fd (some req)) :
    ∃ c', (step s i).findClient fd = some c' ∧ Progress fd s i c c' := by
  have hfd : c.fd = fd := findClient_fd hc
  have hreceived : i.received fd = some req := by simp only [Input.received, hevent, if_true]
  have hback := findClient_onClient_self (holdBack_fd c req) hc
  obtain ⟨hflag, hqueue, hpending, hhold⟩ := holdBack_keeps c req
  have hdirect : (holdBack c req c).handlingReq = false := hflag.trans hidle.handlingReq
  obtain ⟨c₂, hc₂, hanswered⟩ := handleRequests_answered i.ambient (batch c req) 0 hback hdirect
  have hrequests := @exchanges_request fd (s.onClient fd (holdBack c req)) i.ambient (batch c req) 0
  rw [← executed_message hevent hc] at hanswered hrequests
  have hreleased := findClient_onClient_self (release_fd c) hc₂
  have hflushed := findClient_onClient_self (f := Client.ipcClientFlushEvents) (fun _ => rfl)
    hreleased
  have hstep : step s i = s.messageCallback i.ambient c (some req) := by
    simp only [step, handle, hevent, hc]
  refine ⟨(release c c₂).ipcClientFlushEvents, ?_, ?_⟩
  · rw [hstep, messageCallback_eq, hfd]
    exact hflushed
  · obtain ⟨hreleaseHold, hreleaseFlag, hreleaseQueue, hreleasePending⟩ := release_keeps c c₂
    have hevents : c₂.pendingEvents.map Message.event =
        (s.executed fd i).flatMap Exchange.events := by
      rw [hanswered.pending, hpending, hidle.pendingEvents, List.map_nil, List.nil_append]
    constructor
    · refine ⟨hreleaseFlag.trans hanswered.handlingReq, rfl, ?_⟩
      intro hzero
      apply held_after_batch hidle hanswered.holdArr _ (hreleaseHold.symm.trans hzero)
      intro hnone
      rw [hanswered.hold, hrequests, hnone]
      exact UInt32.add_zero _
    · rw [hrequests, hreceived, Option.toList_some, ← batch_append_held hidle,
        ← release_holdArr hanswered.holdArr]
      rfl
    · exact hanswered.one
    · rw [hreceived]
      simpa [Client.ipcClientFlushEvents, hreleaseHold, hhold] using hanswered.hold
    · refine ⟨(s.executed fd i).flatMap Exchange.events, fun _ => events_isEvent, ?_, fun _ => rfl⟩
      simp only [Client.ipcClientFlushEvents, hreleaseQueue, hreleasePending, hevents,
        hanswered.replies, hqueue]

/-- Every step of the run that leaves the client connected. -/
theorem step_progress (hidle : c.Idle) (hc : s.findClient fd = some c) (hkeeps : i.Keeps fd) :
    ∃ c', (step s i).findClient fd = some c' ∧ Progress fd s i c c' := by
  by_cases hmessage : ∃ msg, i.event = .message fd msg
  · obtain ⟨msg, hevent⟩ := hmessage
    cases msg with
    | some req => exact Progress.of_request hidle hc hevent
    | none =>
      have hstep : step s i = s.onClient c.fd Client.ipcClientFlushEvents := by
        simp only [step, handle, hevent, hc, messageCallback]
      have hflushed := findClient_onClient_self (f := Client.ipcClientFlushEvents) (fun _ => rfl) hc
      have hsame : c.ipcClientFlushEvents = c := by
        have hpending := hidle.pendingEvents
        cases c
        simp_all [Client.ipcClientFlushEvents]
      refine ⟨c, ?_, Progress.of_overhears hidle ?_ ?_ (Client.Overhears.refl c)⟩
      · rw [hstep, findClient_fd hc, hflushed, hsame]
      · simp only [executed, hevent]
      · simp only [Input.received, hevent]
  · have hother : ∀ msg, i.event ≠ .message fd msg := fun msg hevent => hmessage ⟨msg, hevent⟩
    obtain ⟨c', hc', hover⟩ := step_overhears hkeeps hother hc hidle.handlingReq
    refine ⟨c', hc', Progress.of_overhears hidle ?_ ?_ hover⟩
    · simp only [executed]
      split
      · rename_i fd' req client hevent _
        rw [if_neg]
        rintro rfl
        exact hother (some req) hevent
      · rfl
    · simp only [Input.received]
      split
      · rename_i fd' req hevent
        rw [if_neg]
        rintro rfl
        exact hother (some req) hevent
      · rfl

end Progress

theorem idle_ipcAddClient (fd : ℕ) : (ipcAddClient fd).Idle := ⟨rfl, rfl, fun _ => rfl⟩

/-- A client that was not there before is new. -/
theorem step_absent {fd : ℕ} {s : State} {i : Input} {c : Client} (hnone : s.findClient fd = none)
    (hc : (step s i).findClient fd = some c) : c = ipcAddClient fd := by
  have htransition := step_transition s i
  generalize step s i = s' at htransition hc
  have hgone : s'.findClient fd ≠ none := by
    rw [hc]
    exact Option.some_ne_none c
  cases htransition with
  | quiet hevent h hclients =>
    cases hclients fd with
    | same hsame => exact absurd (hsame.trans hnone) hgone
    | connected _ _ hnew => exact Option.some.inj (hc.symm.trans hnew)
    | gone _ hnew => exact absurd hnew hgone
  | restarted => cases hc
  | delivered hevent h => exact absurd ((delivered_overheard ..).absent hnone) hgone
  | @served fd' msg client hevent hclient =>
    have hfd : client.fd ≠ fd := by
      rintro rfl
      obtain rfl := findClient_fd hclient
      exact absurd (hclient.symm.trans hnone) (Option.some_ne_none client)
    exact absurd ((messageCallback_overheard i.ambient hfd msg s).absent hnone) hgone

/-- A step after which a client is still there keeps its connection. -/
theorem keeps_of_connected {fd : ℕ} {s : State} {i : Input} {c : Client}
    (hc : (step s i).findClient fd = some c) : i.Keeps fd := by
  constructor
  · intro config hevent
    simp only [step, handle, hevent, startup, findClient, List.find?_nil] at hc
    cases hc
  · intro hevent
    have hnone := List.mem_of_find?_eq_some hc
    simp only [step, handle, hevent] at hnone
    exact absurd (findClient_fd hc) (of_decide_eq_true (List.mem_filter.mp hnone).2)

/-- Between the steps of any run, nothing is delayed. -/
theorem idle_of_reachable {s : State} (h : Reachable s) {fd : ℕ} {c : Client}
    (hc : s.findClient fd = some c) : c.Idle := by
  refine Reachable.induction (P := fun s => ∀ c, s.findClient fd = some c → c.Idle) ?_ ?_ h c hc
  · intro config a c hc
    cases hc
  · intro s i ih c hc
    cases hold : s.findClient fd with
    | none =>
      rw [step_absent hold hc]
      exact idle_ipcAddClient fd
    | some old =>
      obtain ⟨c', hc', hprogress⟩ := step_progress (ih old hold) hold (keeps_of_connected hc)
      rw [hc] at hc'
      rw [Option.some.inj hc']
      exact hprogress.idle

/-- The step writes to the client the replies to the requests that it executes, and then
events. After a message of the client these are the events that its requests emit to it. -/
def Enqueues (fd : ℕ) (s : State) (i : Input) : Prop :=
  ∀ c, s.findClient fd = some c → ∃ c', (step s i).findClient fd = some c' ∧
    ∃ events : List Message, (∀ msg ∈ events, msg.isEvent = true) ∧
      c'.writeQueue = c.writeQueue ++ (s.executed fd i).flatMap Exchange.replies ++ events ∧
      ((i.received fd).isSome → events = (s.executed fd i).flatMap Exchange.events)

/-- The replies in the queue of the client. -/
def replied (c : Client) : List Message := c.writeQueue.filter (fun msg => !msg.isEvent)

theorem filter_replies (xs : List Exchange) : (xs.flatMap Exchange.replies).filter
    (fun msg => !msg.isEvent) = xs.flatMap Exchange.replies := by
  rw [List.filter_eq_self]
  intro msg hmsg
  obtain ⟨x, -, hx⟩ := List.mem_flatMap.mp hmsg
  exact (List.mem_filter.mp hx).2

theorem Progress.replied {fd : ℕ} {s : State} {i : Input} {c c' : Client}
    (h : Progress fd s i c c') :
    replied c' = replied c ++ (s.executed fd i).flatMap Exchange.replies := by
  obtain ⟨events, hevents, hqueue, -⟩ := h.queue
  have hnone : events.filter (fun msg => !msg.isEvent) = [] := by
    rw [List.filter_eq_nil_iff]
    intro msg hmsg
    simp [hevents msg hmsg]
  rw [State.replied, hqueue, List.filter_append, List.filter_append, filter_replies, hnone,
    List.append_nil, State.replied]

theorem received_cons (fd : ℕ) (i : Input) (inputs : List Input) :
    (i :: inputs).filterMap (Input.received fd) =
      (i.received fd).toList ++ inputs.filterMap (Input.received fd) := by
  cases hi : i.received fd with
  | none => rw [List.filterMap_cons_none hi]; rfl
  | some req => rw [List.filterMap_cons_some hi]; rfl

/-- Over any run, each request that is executed gets one reply, in the order in which the
requests came in; those not executed yet are the ones held. The events emitted to the client
while its requests are handled follow the replies. -/
theorem requests_answered_in_order {s : State} (h : Reachable s) {fd : ℕ} {c : Client}
    (hc : s.findClient fd = some c) (inputs : List Input) (hkeeps : ∀ i ∈ inputs, i.Keeps fd) :
    let log := record step (State.executed fd) s inputs
    (∀ x ∈ log, x.replies.length = 1) ∧ Meets step (Enqueues fd) s inputs ∧
      ∃ c', (run step s inputs).findClient fd = some c' ∧
        log.map Exchange.request ++ c'.holdArr =
          c.holdArr ++ inputs.filterMap (Input.received fd) ∧
        replied c' = replied c ++ log.flatMap Exchange.replies := by
  induction inputs generalizing s c with
  | nil => exact ⟨by simp [record], trivial, c, hc, by simp [record], by simp [record]⟩
  | cons i inputs ih =>
    have hidle := idle_of_reachable h hc
    obtain ⟨c₁, hc₁, hfirst⟩ := step_progress hidle hc (hkeeps i List.mem_cons_self)
    obtain ⟨hone, hmeets, c₂, hc₂, horder, hreplied⟩ := ih (h.step i) hc₁
      fun j hj => hkeeps j (List.mem_cons_of_mem _ hj)
    refine ⟨?_, ⟨?_, hmeets⟩, c₂, hc₂, ?_, ?_⟩
    · intro x hx
      exact (List.mem_append.mp hx).elim (hfirst.one x) (hone x)
    · intro d hd
      obtain rfl : c = d := Option.some.inj (hc.symm.trans hd)
      exact ⟨c₁, hc₁, hfirst.queue⟩
    · rw [record, List.map_append, List.append_assoc, horder, received_cons, ← List.append_assoc,
        hfirst.order, List.append_assoc]
    · rw [record, List.flatMap_append, hreplied, hfirst.replied, List.append_assoc]

/-- A client that asks for two requests to be held, and sends them. -/
def twoHeld : List Input :=
  [.quiet (.message 5 (some (.holdRequests (some 2)))), .quiet (.message 5 (some .getCurrent)),
    .quiet (.message 5 (some .getHistoryLength))]

/-- All three have been executed. -/
theorem twoHeld_answered : ∃ c,
    (run step (step (firstSession configInit) (.quiet (.connect 5))) twoHeld).findClient 5 =
      some c ∧ replied c = [.success none, .current (-1), .size 0] := by
  have hreachable : Reachable (step (firstSession configInit) (.quiet (.connect 5))) :=
    (firstSession_reachable configInit).step _
  have hclient : (step (firstSession configInit) (.quiet (.connect 5))).findClient 5 =
    some (ipcAddClient 5) := rfl
  have hkeeps : ∀ i ∈ twoHeld, i.Keeps 5 := by
    intro i hi
    simp only [twoHeld, List.mem_cons, List.not_mem_nil, or_false] at hi
    obtain rfl | rfl | rfl := hi <;> constructor <;> simp [Input.quiet]
  obtain ⟨-, -, c, hc, -, hreplied⟩ := requests_answered_in_order hreachable hclient twoHeld hkeeps
  refine ⟨c, hc, hreplied.trans ?_⟩
  decide

end State

end Swayclip
