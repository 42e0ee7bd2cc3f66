import Swayclip.Cli.Print
import Swayclip.Daemon.Exchange

/-! # Listening for events

`swctl events` subscribes and then prints what comes. Its `roundtrip` takes the last message of
the read that brings the reply for the reply, which it is unless an event has come along with it.
-/

namespace Swayclip
open Library Library.Lines Library.Runs

namespace Cli

/-- Whether `command_events` waits for the reply, prints events or has returned. -/
inductive Phase where
  | waiting
  | listening
  | ended
deriving DecidableEq

structure Listener where
  phase : Phase
  out : Bytes

/-- `message_callback` on the messages of one read, each of which overwrites the one before. -/
def keepLast (file : ℕ → Bytes) (msg : Option Message) (msgs : List (IpcMessage Json)) :
    Option Message :=
  msgs.foldl (fun _ imsg => some (messageCallback file imsg)) msg

def eventCallback (text : Json → Bytes) (imsg : IpcMessage Json) : Bytes :=
  text imsg.payload ++ [newline]

/-- What a call of `read_msgs` leads to, by the result of `ipc_ct_read` and its messages. -/
def Listener.readMsgs (file : ℕ → Bytes) (text : Json → Bytes) (ok : Bool)
    (msgs : List (IpcMessage Json)) (l : Listener) : Listener :=
  match l.phase with
  | .waiting =>
    if !ok then { l with phase := .ended }
    else
      match keepLast file none msgs with
      | none => l
      | some resp => { l with phase := if isSuccess resp then .listening else .ended }
  | .listening =>
    ⟨if ok then .listening else .ended, l.out ++ msgs.flatMap (eventCallback text)⟩
  | .ended => l

theorem keepLast_concat (file : ℕ → Bytes) (msg : Option Message) (msgs : List (IpcMessage Json))
    (imsg : IpcMessage Json) :
    keepLast file msg (msgs ++ [imsg]) = some (messageCallback file imsg) := by
  rw [keepLast, List.foldl_append]
  rfl

end Cli

/-! ## The daemon, the connection and the client -/

def State.queued (fd : ℕ) (s : State) : List Message :=
  ((s.findClient fd).map Client.writeQueue).getD []

/-- The client's descriptor at the daemon, the texts of payloads, and the descriptors that data
travels in. -/
structure Wiring where
  fd : ℕ
  text : Json → Bytes
  memfd : Bytes → ℕ
  file : ℕ → Bytes

/-- `received` counts the bytes that the client has received. -/
structure Session (T : JsonTokener Json) where
  daemon : State
  link : Link T
  client : Cli.Listener
  received : ℕ

/-- The daemon handles an event, it sends, or the client calls `ipc_ct_read`. -/
inductive SessionInput where
  | daemon (i : Input)
  | write (os : List SendMsg)
  | read (rs : List RecvMsg)

variable {T : JsonTokener Json}

def Link.enqueueAll (w : Wiring) (msgs : List Message) (link : Link T) : Link T :=
  msgs.foldl (fun link msg => link.step w.text true (.enqueue (msg.outgoing w.memfd))) link

namespace Session
variable (w : Wiring)

def news (s : Session T) (i : Input) : List Message :=
  ((Swayclip.step s.daemon i).queued w.fd).drop (s.daemon.queued w.fd).length

def step (s : Session T) : SessionInput → Session T
  | .daemon i =>
    { s with
      daemon := Swayclip.step s.daemon i
      link := s.link.enqueueAll w (s.news w i) }
  | .write os => { s with link := s.link.step w.text true (.write os) }
  | .read rs =>
    let (ret, _, msgs, _) := s.link.ict.ipcCtRead true rs
    { s with
      link := s.link.step w.text true (.read rs)
      client := s.client.readMsgs w.file w.text (ret ≠ some false) msgs
      received := s.received + (receivedCells rs).length }

/-- The daemon goes on and hears no more from the client, what it queues can be sent, and the
connection works; a call of `ipc_ct_read` ends before the next one. -/
def Possible (s : Session T) : SessionInput → Prop
  | .daemon i => i.Keeps w.fd ∧ (∀ msg, i.event ≠ .message w.fd msg) ∧
      ∀ msg ∈ s.news w i, Sendable T w.text (msg.outgoing w.memfd)
  | .write os => s.link.Possible w.text true (.write os)
  | .read rs => s.link.Possible w.text true (.read rs) ∧ (s.link.ict.ipcCtRead true rs).1 ≠ none

/-- The events that have been emitted to the client since it subscribed. -/
def emitted (s : Session T) : List Message := (s.daemon.queued w.fd).drop 1

/-- The client has printed the first events that were emitted to it, each on a line, and goes on;
all of them once nothing is on the way any more. -/
structure Listens (s : Session T) : Prop where
  goesOn : s.client.phase ≠ .ended
  prints : ∃ seen, seen <+: s.emitted w ∧
    s.client.out = terminate Cli.newline (seen.map fun msg => w.text msg.toJson) ∧
    (s.link.queue = [] → s.link.wire = [] → s.client.phase = .listening ∧ seen = s.emitted w)

def frameSize (msg : Message) : ℕ := headerSize + (w.text msg.toJson).length

/-- A read that starts before the end of the reply stays short of the end of the first event. -/
def KeepsApart (s : Session T) : SessionInput → Prop
  | .read rs => s.received < frameSize w (.success none) → ∀ msg ∈ (s.emitted w).head?,
      s.received + (receivedCells rs).length < frameSize w (.success none) + frameSize w msg
  | _ => True

/-- The client has just been granted its subscription. -/
def subscribed (T : JsonTokener Json) (args : List EventArg) (ambient : ℕ → Ambient) (s : State) :
    Session T :=
  let daemon := Swayclip.step s ⟨.message w.fd (some (.subscribe (some args))), ambient⟩
  ⟨daemon, (Link.start T).enqueueAll w (daemon.queued w.fd), ⟨.waiting, []⟩, 0⟩

/-! ## What every possible run keeps -/

/-- The client has been handed the messages `done`, and `rest` are on the way. -/
structure Going (s : Session T) (events done rest : List Message) (part : List Cell) : Prop where
  client : ∃ c, s.daemon.findClient w.fd = some c ∧ c.handlingReq = false ∧
    c.writeQueue = .success none :: events
  isEvent : ∀ msg ∈ events, msg.isEvent = true
  split : .success none :: events = done ++ rest
  carries : s.link.Carries w.text true
    ((.success none :: events).map (Message.outgoing w.memfd))
    (done.map (Message.outgoing w.memfd)) (rest.map (Message.outgoing w.memfd)) part
  received : s.received = (done.map (frameSize w)).sum + part.length
  waiting : s.client.phase = .waiting → done = [] ∧ s.client.out = []
  listening : s.client.phase = .listening → ∃ seen, done = .success none :: seen ∧
    s.client.out = terminate Cli.newline (seen.map fun msg => w.text msg.toJson)

section Going
variable {w} {s : Session T} {events done rest : List Message} {part : List Cell}

theorem Going.emitted (h : s.Going w events done rest part) : s.emitted w = events := by
  obtain ⟨c, hc, -, hqueue⟩ := h.client
  rw [Session.emitted, State.queued, hc, Option.map_some, Option.getD_some, hqueue]
  rfl

theorem Going.rest_eq_nil (h : s.Going w events done rest part) (hqueue : s.link.queue = [])
    (hwire : s.link.wire = []) : rest = [] :=
  List.map_eq_nil_iff.mp (h.carries.rest_eq_nil hqueue hwire)

/-- As long as it goes on, the client has done what it should. -/
theorem Going.listens_iff (h : s.Going w events done rest part) :
    s.Listens w ↔ s.client.phase ≠ .ended := by
  constructor
  · exact Listens.goesOn
  · intro hphase
    refine ⟨hphase, ?_⟩
    rw [h.emitted]
    cases hp : s.client.phase with
    | waiting =>
      obtain ⟨rfl, hout⟩ := h.waiting hp
      refine ⟨[], List.nil_prefix, hout, fun hqueue hwire => ?_⟩
      have hsplit := h.split
      rw [h.rest_eq_nil hqueue hwire] at hsplit
      cases hsplit
    | listening =>
      obtain ⟨seen, rfl, hout⟩ := h.listening hp
      have hsplit : events = seen ++ rest := (List.cons.inj h.split).2
      refine ⟨seen, ⟨rest, hsplit.symm⟩, hout, fun hqueue hwire => ⟨rfl, ?_⟩⟩
      rw [hsplit, h.rest_eq_nil hqueue hwire, List.append_nil]
    | ended => exact absurd hp hphase

theorem carries_enqueueAll {sent done rest : List (Outgoing Json)} {link : Link T}
    (h : link.Carries w.text true sent done rest part) {msgs : List Message}
    (hmsgs : ∀ msg ∈ msgs, Sendable T w.text (msg.outgoing w.memfd)) :
    (link.enqueueAll w msgs).Carries w.text true
      (sent ++ msgs.map (Message.outgoing w.memfd)) done
      (rest ++ msgs.map (Message.outgoing w.memfd)) part := by
  induction msgs generalizing link sent rest with
  | nil => simpa [Link.enqueueAll] using h
  | cons msg msgs ih =>
    have hnext := ih (h.enqueue (hmsgs msg List.mem_cons_self)) fun m hm =>
      hmsgs m (List.mem_cons_of_mem _ hm)
    simpa [Link.enqueueAll] using hnext

/-- The daemon queues nothing but events. -/
theorem Going.daemon (h : s.Going w events done rest part) {i : Input}
    (hpossible : s.Possible w (.daemon i)) :
    ∃ more, (s.step w (.daemon i)).Going w (events ++ more) done (rest ++ more) part := by
  obtain ⟨hkeeps, hother, hsend⟩ := hpossible
  obtain ⟨c, hc, hdirect, hqueue⟩ := h.client
  obtain ⟨c', hc', more, hmore, rfl⟩ := State.step_overhears hkeeps hother hc hdirect
  have hnews : s.news w i = more := by
    rw [news, State.queued, State.queued, hc, hc', Option.map_some, Option.map_some,
      Option.getD_some, Option.getD_some]
    exact List.drop_left
  rw [hnews] at hsend
  refine ⟨more, ⟨_, hc', hdirect, ?_⟩, ?_, ?_, ?_, h.received, h.waiting, h.listening⟩
  · rw [hqueue]
    rfl
  · exact List.forall_mem_append.mpr ⟨h.isEvent, hmore⟩
  · rw [← List.cons_append, h.split, List.append_assoc]
  · have hcarries := carries_enqueueAll h.carries hsend
    rw [← List.map_append, ← List.map_append] at hcarries
    rw [step, hnews]
    exact hcarries

theorem Going.write (h : s.Going w events done rest part) {os : List SendMsg}
    (hpossible : s.Possible w (.write os)) :
    (s.step w (.write os)).Going w events done rest part :=
  ⟨h.client, h.isEvent, h.split, h.carries.write hpossible, h.received, h.waiting, h.listening⟩

/-! ### Reads -/

def heard (w : Wiring) (msgs : List Message) : List (IpcMessage Json) :=
  (msgs.map (Message.outgoing w.memfd)).map (Outgoing.received true)

theorem frames_length (w : Wiring) (msgs : List Message) :
    ((msgs.map (Message.outgoing w.memfd)).flatMap (frameCells w.text)).length =
      (msgs.map (frameSize w)).sum := by
  rw [List.length_flatMap, List.map_map]
  congr 1
  exact List.map_congr_left fun msg _ => frameCells_length w.text (msg.outgoing w.memfd)

theorem waiting_reads {l : Cli.Listener} (hl : l.phase = .waiting) (msgs : List Message)
    (msg : Message) :
    (l.readMsgs w.file w.text true (heard w (msgs ++ [msg]))).phase =
      if msg.type = .success then .listening else .ended := by
  have hkept : Cli.keepLast w.file none (heard w (msgs ++ [msg])) =
      some (Cli.messageCallback w.file ((msg.outgoing w.memfd).received true)) := by
    rw [heard, List.map_append, List.map_append]
    exact Cli.keepLast_concat ..
  have htype : Cli.isSuccess (Cli.messageCallback w.file ((msg.outgoing w.memfd).received true)) =
      decide (msg.type = .success) := by
    change decide (msg.type.code = IpcMessageType.success.code) = _
    cases msg.type <;> rfl
  simp only [Cli.Listener.readMsgs, hl, Bool.not_true, Bool.false_eq_true, if_false, hkept, htype,
    decide_eq_true_eq]

theorem waiting_out {l : Cli.Listener} (hl : l.phase = .waiting) (msgs : List (IpcMessage Json)) :
    (l.readMsgs w.file w.text true msgs).out = l.out := by
  simp only [Cli.Listener.readMsgs, hl, Bool.not_true, Bool.false_eq_true, if_false]
  split <;> rfl

theorem listening_reads {l : Cli.Listener} (hl : l.phase = .listening) (msgs : List Message) :
    l.readMsgs w.file w.text true (heard w msgs) =
      ⟨.listening, l.out ++ terminate Cli.newline (msgs.map fun msg => w.text msg.toJson)⟩ := by
  have hprinted : (heard w msgs).flatMap (Cli.eventCallback w.text) =
      terminate Cli.newline (msgs.map fun msg => w.text msg.toJson) := by
    rw [heard, terminate, List.flatMap_map, List.flatMap_map, List.flatMap_map]
    rfl
  rw [Cli.Listener.readMsgs]
  simp only [hl, if_true, hprinted]

theorem part_lt {sent done : List (Outgoing Json)} {link : Link T}
    (h : link.Carries w.text true sent done (rest.map (Message.outgoing w.memfd)) part) :
    ∀ msg ∈ rest.head?, part.length < frameSize w msg := by
  intro msg hmsg
  have hhead : msg.outgoing w.memfd ∈ (rest.map (Message.outgoing w.memfd)).head? := by
    rw [List.head?_map, Option.mem_def.mp hmsg]
    rfl
  obtain ⟨hbegins, hne, -⟩ := h.reading.inFirst _ hhead
  have hsize : (frameCells w.text (msg.outgoing w.memfd)).length = frameSize w msg :=
    frameCells_length ..
  rw [← hsize]
  exact lt_of_le_of_ne hbegins.length_le fun hlength => hne (hbegins.eq_of_length hlength)

/-- What a read hands over, and where it stops. -/
theorem Going.hears (h : s.Going w events done rest part) {rs : List RecvMsg}
    (hpossible : s.link.Possible w.text true (.read rs)) : ∃ more rest' part',
      rest = more ++ rest' ∧ (s.link.ict.ipcCtRead true rs).2.2.1 = heard w more ∧
      (s.link.ict.ipcCtRead true rs).1 ≠ some false ∧
      part.length + (receivedCells rs).length = (more.map (frameSize w)).sum + part'.length ∧
      (s.link.step w.text true (.read rs)).Carries w.text true
        ((.success none :: events).map (Message.outgoing w.memfd))
        ((done ++ more).map (Message.outgoing w.memfd)) (rest'.map (Message.outgoing w.memfd))
        part' := by
  obtain ⟨moreSent, restSent, part', hreceived, hcarries⟩ := h.carries.read_more hpossible
  obtain ⟨more, rest', rfl, rfl, rfl⟩ := List.map_eq_append_iff.mp hreceived.split
  refine ⟨more, rest', part', rfl, hreceived.delivered, hreceived.alive, ?_, ?_⟩
  · have hlength := congrArg List.length hreceived.consumed
    rwa [List.length_append, List.length_append, frames_length] at hlength
  · rwa [List.map_append]

theorem type_of_isEvent {msg : Message} (h : msg.isEvent = true) : msg.type = .event := by
  cases msg with
  | event e => rfl
  | _ => cases h

theorem client_read {rs : List RecvMsg} {more : List Message}
    (hmsgs : (s.link.ict.ipcCtRead true rs).2.2.1 = heard w more)
    (hret : (s.link.ict.ipcCtRead true rs).1 ≠ some false) :
    (s.step w (.read rs)).client = s.client.readMsgs w.file w.text true (heard w more) := by
  simp only [step, hmsgs, hret, ne_eq, not_false_eq_true, decide_true]

/-- While the client waits, a read hands over nothing, the reply, or the reply and some events. -/
theorem Going.read_waiting (h : s.Going w events [] rest part) (hphase : s.client.phase = .waiting)
    {rs : List RecvMsg} {more rest' : List Message} {part' : List Cell}
    (hrest : rest = more ++ rest')
    (hclient : (s.step w (.read rs)).client =
      s.client.readMsgs w.file w.text true (heard w more))
    (hcells : part.length + (receivedCells rs).length =
      (more.map (frameSize w)).sum + part'.length)
    (hpart : ∀ msg ∈ rest'.head?, part'.length < frameSize w msg) :
    ((s.step w (.read rs)).client.phase ≠ .ended ↔ s.KeepsApart w (.read rs)) ∧
      ((s.step w (.read rs)).client.phase = .waiting → more = []) ∧
      ((s.step w (.read rs)).client.phase = .listening → more = [.success none]) := by
  have hsplit : .success none :: events = more ++ rest' := by rw [h.split, hrest, List.nil_append]
  have hreceived : s.received = part.length := by simpa using h.received
  have hstart : part.length < frameSize w (.success none) := by
    refine part_lt h.carries _ ?_
    rw [hrest, ← hsplit]
    rfl
  have hreach : s.received + (receivedCells rs).length =
      (more.map (frameSize w)).sum + part'.length := by rw [hreceived, hcells]
  rcases more.eq_nil_or_concat with rfl | ⟨pre, last, rfl⟩
  · -- the reply is not complete yet
    have hstays : (s.step w (.read rs)).client = s.client := by
      rw [hclient, Cli.Listener.readMsgs]
      simp only [hphase]
      rfl
    rw [hstays, hphase]
    rw [List.nil_append] at hsplit
    have hinside : part'.length < frameSize w (.success none) := hpart _ (by rw [← hsplit]; rfl)
    refine ⟨iff_of_true (by decide) fun _ msg _ => ?_, fun _ => rfl, fun hp => by cases hp⟩
    rw [hreach, List.map_nil, List.sum_nil]
    omega
  · rw [List.concat_eq_append] at hclient hreach hsplit ⊢
    rw [hclient, waiting_reads hphase]
    cases pre with
    | nil =>
      -- the reply comes alone
      obtain ⟨rfl, hevents⟩ := List.cons.inj hsplit
      rw [if_pos (show (Message.success none).type = .success from rfl)]
      refine ⟨iff_of_true (by decide) fun _ msg hmsg => ?_, (fun hp => by cases hp), fun _ => rfl⟩
      rw [h.emitted, hevents] at hmsg
      have hinside : part'.length < frameSize w msg := hpart msg hmsg
      rw [hreach, List.nil_append, List.map_singleton, List.sum_singleton]
      omega
    | cons first pre =>
      -- an event is the last message of the read
      rw [List.cons_append, List.cons_append] at hsplit
      obtain ⟨rfl, hevents⟩ := List.cons.inj hsplit
      have hlast : last.type ≠ .success := by
        rw [type_of_isEvent (h.isEvent last (by rw [hevents]; simp))]
        decide
      rw [if_neg hlast]
      refine ⟨iff_of_false (fun hp => hp rfl) fun hapart => ?_, (fun hp => by cases hp),
        (fun hp => by cases hp)⟩
      obtain ⟨msg, hmsg⟩ : ∃ msg, (pre ++ [last]).head? = some msg :=
        Option.isSome_iff_exists.mp (by simp)
      have hshort := hapart (by rw [hreceived]; exact hstart) msg (by
        rw [h.emitted, hevents, List.head?_append_of_ne_nil _ (by simp), hmsg]
        rfl)
      have hle : frameSize w msg ≤ ((pre ++ [last]).map (frameSize w)).sum :=
        List.le_sum_of_mem (List.mem_map_of_mem (List.mem_of_head? hmsg))
      rw [hreach, List.cons_append, List.map_cons, List.sum_cons] at hshort
      omega

/-- Afterwards every read hands over events, which are printed. -/
theorem Going.received_reply (h : s.Going w events done rest part)
    (hphase : s.client.phase = .listening) : frameSize w (.success none) ≤ s.received := by
  obtain ⟨seen, rfl, -⟩ := h.listening hphase
  rw [h.received, List.map_cons, List.sum_cons]
  omega

theorem Going.read (h : s.Going w events done rest part) {rs : List RecvMsg}
    (hpossible : s.Possible w (.read rs)) : ∃ more rest' part',
      (s.step w (.read rs)).Going w events (done ++ more) rest' part' ∧
        (s.client.phase ≠ .ended →
          ((s.step w (.read rs)).client.phase ≠ .ended ↔ s.KeepsApart w (.read rs))) := by
  obtain ⟨more, rest', part', hrest, hmsgs, hret, hcells, hcarries⟩ := h.hears hpossible.1
  have hclient := client_read hmsgs hret
  have hsplit : .success none :: events = (done ++ more) ++ rest' := by
    rw [h.split, hrest, List.append_assoc]
  have hreceived : (s.step w (.read rs)).received =
      ((done ++ more).map (frameSize w)).sum + part'.length := by
    change s.received + _ = _
    rw [h.received, List.map_append, List.sum_append]
    omega
  refine ⟨more, rest', part', ?_⟩
  cases hphase : s.client.phase with
  | waiting =>
    obtain ⟨rfl, hout⟩ := h.waiting hphase
    obtain ⟨hiff, hwaits, hlistens⟩ := h.read_waiting hphase hrest hclient hcells (part_lt hcarries)
    have hsilent : (s.step w (.read rs)).client.out = [] := by
      rw [hclient, waiting_out hphase, hout]
    refine ⟨⟨h.client, h.isEvent, hsplit, hcarries, hreceived, fun hp => ⟨hwaits hp, hsilent⟩,
      fun hp => ⟨[], hlistens hp, hsilent⟩⟩, fun _ => hiff⟩
  | listening =>
    obtain ⟨seen, rfl, hout⟩ := h.listening hphase
    have hreply := h.received_reply hphase
    rw [listening_reads hphase] at hclient
    have hprinted : (s.step w (.read rs)).client.out =
        terminate Cli.newline ((seen ++ more).map fun msg => w.text msg.toJson) := by
      rw [hclient, hout, terminate, terminate, terminate, List.map_append, List.flatMap_append]
    refine ⟨⟨h.client, h.isEvent, hsplit, hcarries, hreceived, fun hp => ?_,
      fun _ => ⟨seen ++ more, rfl, hprinted⟩⟩, fun _ => iff_of_true ?_ fun hstart => ?_⟩
    · rw [hclient] at hp
      cases hp
    · rw [hclient]
      exact fun hp => by cases hp
    · omega
  | ended =>
    have hstays : (s.step w (.read rs)).client.phase = .ended := by
      rw [hclient, Cli.Listener.readMsgs]
      simp only [hphase]
    refine ⟨⟨h.client, h.isEvent, hsplit, hcarries, hreceived, fun hp => ?_, fun hp => ?_⟩,
      fun hne => absurd rfl hne⟩
    · rw [hstays] at hp
      cases hp
    · rw [hstays] at hp
      cases hp

end Going

/-! ## From the subscription on -/

theorem subscribed_client {s : State} {fd : ℕ} (hc : s.findClient fd = some (ipcAddClient fd))
    {args : List EventArg} {flags : List EventFlag} (hflags : subscribeEvents args [] = .ok flags)
    (ambient : ℕ → Ambient) :
    (Swayclip.step s ⟨.message fd (some (.subscribe (some args))), ambient⟩).findClient fd =
      some { ipcAddClient fd with events := flags, writeQueue := [.success none] } := by
  have hopened := State.findClient_onClient_self (f := fun c => { c with handlingReq := true })
    (fun _ => rfl) hc
  have hset := State.findClient_onClient_self (f := Client.ipcClientSetEvents flags)
    (fun _ => rfl) hopened
  have hreplied := State.findClient_onClient_self (f := ipcClientSendSuccess) (fun _ => rfl) hset
  have hclosed := State.findClient_onClient_self (f := fun c => { c with handlingReq := false })
    (fun _ => rfl) hreplied
  have hflushed := State.findClient_onClient_self (f := Client.ipcClientFlushEvents)
    (fun _ => rfl) hclosed
  have hdirect : ¬ (ipcAddClient fd).hold > 0 := show ¬ (0 : UInt32) > 0 by decide
  simp only [Swayclip.step, State.handle, hc, State.messageCallback, if_neg hdirect,
    State.handleRequest, State.requestCallback, State.serveSubscribe, hflags, State.sendSuccess]
  exact hflushed

theorem subscribed_going {w : Wiring} {s : State}
    (hc : s.findClient w.fd = some (ipcAddClient w.fd)) {args : List EventArg}
    {flags : List EventFlag} (hflags : subscribeEvents args [] = .ok flags)
    (ambient : ℕ → Ambient)
    (hreply : Sendable T w.text ((Message.success none).outgoing w.memfd)) :
    (subscribed w T args ambient s).Going w [] [] [.success none] [] := by
  have hclient := subscribed_client hc hflags ambient
  have hqueued : (Swayclip.step s ⟨.message w.fd (some (.subscribe (some args))),
      ambient⟩).queued w.fd = [.success none] := by
    rw [State.queued, hclient]
    rfl
  refine ⟨⟨_, hclient, rfl, rfl⟩, by simp, rfl, ?_, rfl, fun _ => ⟨rfl, rfl⟩, fun hp => by cases hp⟩
  have hmsgs : ∀ msg ∈ [Message.success none], Sendable T w.text (msg.outgoing w.memfd) := by
    simpa using hreply
  have hcarries := carries_enqueueAll (Link.start_carries true) hmsgs
  rw [List.nil_append] at hcarries
  simpa only [subscribed, hqueued, List.map_nil] using hcarries

/-- The client prints what is emitted to it after it has subscribed, each event once and in order,
exactly as long as no read brings it the reply together with an event. -/
theorem events_printed_iff {w : Wiring} {s : State}
    (hc : s.findClient w.fd = some (ipcAddClient w.fd)) {args : List EventArg}
    {flags : List EventFlag} (hflags : subscribeEvents args [] = .ok flags)
    (ambient : ℕ → Ambient)
    (hreply : Sendable T w.text ((Message.success none).outgoing w.memfd))
    {inputs : List SessionInput}
    (hpossible : Meets (step w) (Possible w) (subscribed w T args ambient s) inputs) :
    (∀ is, is <+: inputs → (run (step w) (subscribed w T args ambient s) is).Listens w) ↔
      Meets (step w) (KeepsApart w) (subscribed w T args ambient s) inputs := by
  have hstart := subscribed_going hc hflags ambient hreply
  have hlistens : (subscribed w T args ambient s).Listens w :=
    hstart.listens_iff.mpr fun hp => by cases hp
  refine throughout_iff_of_meets
    (I := fun x : Session T => ∃ events done rest part, x.Going w events done rest part) ?_ ?_
    ⟨[], [], _, [], hstart⟩ hlistens hpossible
  · rintro x i ⟨events, done, rest, part, hgoing⟩ hi
    cases i with
    | daemon i =>
      obtain ⟨more, hnext⟩ := hgoing.daemon hi
      exact ⟨_, _, _, _, hnext⟩
    | write os => exact ⟨_, _, _, _, hgoing.write hi⟩
    | read rs =>
      obtain ⟨more, rest', part', hnext, -⟩ := hgoing.read hi
      exact ⟨_, _, _, _, hnext⟩
  · rintro x i ⟨events, done, rest, part, hgoing⟩ hx hi
    have hphase := hgoing.listens_iff.mp hx
    cases i with
    | daemon i =>
      obtain ⟨more, hnext⟩ := hgoing.daemon hi
      exact iff_of_true (hnext.listens_iff.mpr hphase) trivial
    | write os => exact iff_of_true ((hgoing.write hi).listens_iff.mpr hphase) trivial
    | read rs =>
      obtain ⟨more, rest', part', hnext, hiff⟩ := hgoing.read hi
      exact hnext.listens_iff.trans (hiff hphase)

end Session

/-! ## Two ways to receive an event -/

/-- A tokener that knows the texts of a few values. -/
def knownTexts (values : List Json) (h : values.find? (fun j => j.plainText = []) = none) :
    JsonTokener Json :=
  Incremental.Parser.collect (fun text => values.find? fun j => j.plainText = text) 0 h

theorem knownTexts_document {values : List Json}
    {h : values.find? (fun j => j.plainText = []) = none} {j : Json} (htext : 0 ∉ j.plainText)
    (hfound : values.find? (fun j' => j'.plainText = j.plainText) = some j) :
    (knownTexts values h).Document j.plainText j :=
  Incremental.Parser.collect_document h htext hfound

/-- The payloads of a success and of the first event. -/
def replyAndEvent : JsonTokener Json :=
  knownTexts [(Message.success none).toJson, (Message.event (.entryAdd 1)).toJson] rfl

def plainWiring : Wiring where
  fd := 0
  text := Json.plainText
  memfd _ := 0
  file _ := []

/-- `swctl events entry_add` has just been granted its subscription. -/
def addSubscribed : Session replyAndEvent :=
  Session.subscribed plainWiring replyAndEvent [.flag .entryAdd] (fun _ => .quiet 0)
    (Swayclip.step (firstSession configInit) (.quiet (.connect 0)))

def copiedMeanwhile : List SessionInput :=
  (copy (0, .regular) [(textPlain, [65])]).map .daemon ++ [.write [.sent 7, .sent 33]]

def frameOf (msg : Message) : List Cell := frameCells Json.plainText (msg.outgoing fun _ => 0)

def receiveFrame (msg : Message) : List RecvMsg :=
  [.data ((frameOf msg).take headerSize), .data ((frameOf msg).drop headerSize)]

def readTogether : SessionInput :=
  .read (receiveFrame (.success none) ++ receiveFrame (.event (.entryAdd 1)) ++ [.eagain])

def readApart : List SessionInput :=
  [.read (receiveFrame (.success none) ++ [.eagain]),
    .read (receiveFrame (.event (.entryAdd 1)) ++ [.eagain])]

theorem reply_sendable :
    Sendable replyAndEvent Json.plainText ((Message.success none).outgoing fun _ => 0) :=
  ⟨by decide, by decide, knownTexts_document (by decide) rfl⟩

theorem event_sendable :
    Sendable replyAndEvent Json.plainText ((Message.event (.entryAdd 1)).outgoing fun _ => 0) :=
  ⟨by decide +kernel, by decide +kernel, knownTexts_document (by decide +kernel) rfl⟩

/-- What others do leaves the client alone. -/
theorem copy_others (name : SelectionName) (content : List (CString × Bytes)) (fd : ℕ) :
    ∀ i ∈ copy name content, i.Keeps fd ∧ ∀ msg, i.event ≠ .message fd msg := by
  intro i hi
  rcases List.mem_append.mp hi with hi | hi
  · rcases List.mem_cons.mp hi with rfl | hi
    · exact ⟨⟨(fun _ h => by cases h), (fun h => by cases h)⟩, fun _ h => by cases h⟩
    · obtain ⟨m, -, rfl⟩ := List.mem_map.mp hi
      exact ⟨⟨(fun _ h => by cases h), (fun h => by cases h)⟩, fun _ h => by cases h⟩
  · rw [List.mem_singleton.mp hi]
    exact ⟨⟨(fun _ h => by cases h), (fun h => by cases h)⟩, fun _ h => by cases h⟩

/-- A step of the daemon that queues nothing but the event. -/
theorem possible_copy {s : Session replyAndEvent} {i : Input}
    (hi : i ∈ copy (0, .regular) [(textPlain, [65])])
    (hnews : ∀ msg ∈ s.news plainWiring i, msg = .event (.entryAdd 1)) :
    s.Possible plainWiring (.daemon i) := by
  obtain ⟨hkeeps, hother⟩ := copy_others _ _ 0 i hi
  refine ⟨hkeeps, hother, fun msg hmsg => ?_⟩
  rw [hnews msg hmsg]
  exact event_sendable

theorem copiedMeanwhile_possible :
    Meets (Session.step plainWiring) (Session.Possible plainWiring) addSubscribed
      copiedMeanwhile := by
  refine ⟨possible_copy (by simp [copy, offerEvents]) (by decide +kernel),
    possible_copy (by simp [copy, offerEvents]) (by decide +kernel),
    possible_copy (by simp [copy, offerEvents]) (by decide +kernel), ?_, trivial⟩
  intro o ho
  simp only [List.mem_cons, List.not_mem_nil, or_false] at ho
  rcases ho with rfl | rfl <;> exact ⟨(fun h => by cases h), (fun h => by cases h)⟩

theorem readTogether_possible :
    (run (Session.step plainWiring) addSubscribed copiedMeanwhile).Possible plainWiring
      readTogether := by
  unfold readTogether Session.Possible Link.Possible IpcCt.Fits
  decide +kernel

theorem readApart_possible :
    Meets (Session.step plainWiring) (Session.Possible plainWiring)
      (run (Session.step plainWiring) addSubscribed copiedMeanwhile) readApart := by
  refine ⟨?_, ?_, trivial⟩
  · unfold Session.Possible Link.Possible IpcCt.Fits
    decide +kernel
  · unfold Session.Possible Link.Possible IpcCt.Fits
    decide +kernel

/-- The one read of the reply and the event ends the client, which prints nothing. -/
theorem readTogether_lost :
    let s := Swayclip.step (firstSession configInit) (.quiet (.connect 0))
    let inputs := copiedMeanwhile ++ [readTogether]
    s.findClient 0 = some (ipcAddClient 0) ∧
      subscribeEvents [.flag .entryAdd] [] = .ok [.entryAdd] ∧
      Sendable replyAndEvent Json.plainText ((Message.success none).outgoing fun _ => 0) ∧
      Meets (Session.step plainWiring) (Session.Possible plainWiring) addSubscribed inputs ∧
      ¬ ∀ is, is <+: inputs →
        (run (Session.step plainWiring) addSubscribed is).Listens plainWiring := by
  refine ⟨rfl, rfl, reply_sendable,
    Meets.append.mpr ⟨copiedMeanwhile_possible, readTogether_possible, trivial⟩, fun h => ?_⟩
  have hends : (run (Session.step plainWiring) addSubscribed
      (copiedMeanwhile ++ [readTogether])).client.phase = .ended := by decide +kernel
  exact (h _ (List.prefix_refl _)).goesOn hends

/-- The end of the reply is read by itself. -/
theorem readApart_apart :
    Meets (Session.step plainWiring) (Session.KeepsApart plainWiring) addSubscribed
      (copiedMeanwhile ++ readApart) := by
  have hcopied : Meets (Session.step plainWiring) (Session.KeepsApart plainWiring) addSubscribed
      copiedMeanwhile := ⟨trivial, trivial, trivial, trivial, trivial⟩
  refine Meets.append.mpr ⟨hcopied, fun _ => by decide +kernel, fun hstart => ?_, trivial⟩
  exact absurd hstart (by decide +kernel)

theorem readApart_printed :
    addSubscribed.Listens plainWiring ∧ ∀ is, is <+: copiedMeanwhile ++ readApart →
      (run (Session.step plainWiring) addSubscribed is).Listens plainWiring := by
  have hprinted := (Session.events_printed_iff (w := plainWiring) rfl rfl (fun _ => .quiet 0)
    reply_sendable (Meets.append.mpr ⟨copiedMeanwhile_possible, readApart_possible⟩)).mpr
    readApart_apart
  exact ⟨hprinted [] List.nil_prefix, hprinted⟩

end Swayclip
