import Swayclip.Daemon.Exchange

/-! # A client that folds its events

What a client holds is what it makes of the events that it is sent. For each operation of the
daemon the events that it tells are listed here. A view of the state whose changes these
events report is held by every subscribed client after each step; the queue in which events
are held back while the client is being served only delays them.
-/

namespace Swayclip
open Library.Runs Tables

/-! ## What a client makes of it -/

/-- What a client makes of each event, and the kinds of events that it needs. -/
structure Fold (β : Type*) where
  flags : List EventFlag
  next : β → EventMsg → β
  other : ∀ b msg, msg.flag ∉ flags → next b msg = b

variable {β : Type*}

/-- What becomes of `b` with the events, one after the other. -/
def Fold.after (F : Fold β) (b : β) (msgs : List EventMsg) : β := msgs.foldl F.next b

@[simp] theorem Fold.after_nil (F : Fold β) (b : β) : F.after b [] = b := rfl

theorem Fold.after_append (F : Fold β) (b : β) (msgs more : List EventMsg) :
    F.after b (msgs ++ more) = F.after (F.after b msgs) more :=
  List.foldl_append

/-- Subscribed to these kinds of events. -/
def Client.Subscribes (flags : List EventFlag) (client : Client) : Prop :=
  ∀ flag ∈ flags, flag ∈ client.events

/-- The client has been told what the events say, as far as it needs to know. -/
structure Client.Heard (F : Fold β) (msgs : List EventMsg) (c c' : Client) : Prop where
  ready : c.Ready → c'.Ready
  subscribes : c.Subscribes F.flags → c'.Subscribes F.flags
  told : c.Ready → c.Subscribes F.flags →
    ∃ new, c'.sent = c.sent ++ new ∧ ∀ b, F.after b new = F.after b msgs

namespace Client

/-- A change to a client that keeps its subscription and what was sent to it. -/
theorem Heard.of_sent {F : Fold β} {c c' : Client} (hready : c.Ready → c'.Ready)
    (hsubscribes : c.Subscribes F.flags → c'.Subscribes F.flags)
    (hsent : c'.sent = c.sent) : c.Heard F [] c' :=
  ⟨hready, hsubscribes, fun _ _ => ⟨[], by rw [hsent, List.append_nil], fun _ => rfl⟩⟩

theorem Heard.refl (F : Fold β) (c : Client) : c.Heard F [] c :=
  .of_sent (fun h => h) (fun h => h) rfl

theorem Heard.trans {F : Fold β} {msgs more : List EventMsg} {c c' c'' : Client}
    (h : c.Heard F msgs c') (h' : c'.Heard F more c'') : c.Heard F (msgs ++ more) c'' := by
  refine ⟨fun hc => h'.ready (h.ready hc), fun hc => h'.subscribes (h.subscribes hc),
    fun hc hs => ?_⟩
  obtain ⟨new, hnew, hafter⟩ := h.told hc hs
  obtain ⟨new', hnew', hafter'⟩ := h'.told (h.ready hc) (h.subscribes hs)
  refine ⟨new ++ new', by rw [hnew', hnew, List.append_assoc], fun b => ?_⟩
  rw [F.after_append, hafter, hafter', F.after_append]

theorem heard_emit (F : Fold β) (msg : EventMsg) (c : Client) : c.Heard F [msg] (c.emit msg) := by
  refine ⟨fun h => ready_emit h msg, fun h flag hflag => ?_, fun hready hsubscribes => ?_⟩
  · rw [emit_events]
    exact h flag hflag
  · rw [sent_emit hready]
    by_cases hmem : msg.flag ∈ c.events
    · exact ⟨[msg], by rw [if_pos hmem], fun _ => rfl⟩
    · refine ⟨[], by rw [if_neg hmem, List.append_nil], fun b => ?_⟩
      exact (F.other b msg fun h => hmem (hsubscribes _ h)).symm

end Client

/-! ## One client among all -/

namespace State

/-- Whatever is emitted now is not going to overtake. -/
def ReadyFor (fd : ℕ) (s : State) : Prop := ∀ c, s.findClient fd = some c → c.Ready

/-- The client with the descriptor, if there is one, hears of these events. -/
def Informs (F : Fold β) (fd : ℕ) (msgs : List EventMsg) (s s' : State) : Prop :=
  ∃ f, s'.findClient fd = (s.findClient fd).map f ∧
    ∀ c, s.findClient fd = some c → c.Heard F msgs (f c)

/-- What the client has folded is `b`: so it is if the client held `known` when `k` events had
been sent to it. -/
def Tracks (F : Fold β) (fd : ℕ) (known : β) (k : ℕ) (b : β) (s : State) : Prop :=
  ∃ c, s.findClient fd = some c ∧ c.Subscribes F.flags ∧ k ≤ c.sent.length ∧
    F.after known (c.sent.drop k) = b

section Client
variable {F : Fold β} {fd k : ℕ} {known b b' : β} {msgs more : List EventMsg} {s s' s'' : State}

theorem Informs.of_ipc (h : s'.ipc = s.ipc) : Informs F fd [] s s' :=
  ⟨fun c => c, by rw [findClient, h, Option.map_id']; rfl, fun c _ => .refl F c⟩

theorem Informs.trans (h : Informs F fd msgs s s') (h' : Informs F fd more s' s'') :
    Informs F fd (msgs ++ more) s s'' := by
  obtain ⟨f, hf, hheard⟩ := h
  obtain ⟨g, hg, hheard'⟩ := h'
  refine ⟨fun c => g (f c), by rw [hg, hf, Option.map_map]; rfl, fun c hc => ?_⟩
  exact (hheard c hc).trans (hheard' (f c) (by rw [hf, hc, Option.map_some]))

/-- Before or after, something may happen that is not the clients' business. -/
theorem Informs.congr_left (h : Informs F fd msgs s' s'') (hipc : s'.ipc = s.ipc) :
    Informs F fd msgs s s'' :=
  (Informs.of_ipc hipc).trans h

theorem Informs.congr (h : Informs F fd msgs s s') (hipc : s''.ipc = s'.ipc) :
    Informs F fd msgs s s'' := by
  obtain ⟨f, hf, hheard⟩ := h
  exact ⟨f, by rw [← hf, findClient, hipc, findClient], hheard⟩

theorem informs_emit (F : Fold β) (fd : ℕ) (msg : EventMsg) (s : State) :
    Informs F fd [msg] s { s with ipc := ipcEvent msg s.ipc } :=
  ⟨_, findClient_emit msg s, fun c _ => Client.heard_emit F msg c⟩

theorem informs_onClient {f : Client → Client} (fd' : ℕ) (hfd : ∀ c, (f c).fd = c.fd)
    (hf : ∀ c, c.fd = fd' → s.findClient fd = some c → c.Heard F [] (f c)) :
    Informs F fd [] s (s.onClient fd' f) := by
  refine ⟨_, findClient_onClient hfd fd' s, fun c hc => ?_⟩
  split
  · rename_i hc'
    exact hf c hc' hc
  · exact .refl F c

/-- Replies do not count. -/
theorem informs_reply (F : Fold β) (fd fd' : ℕ) {msg : Message} (hmsg : msg.isEvent = false)
    (s : State) : Informs F fd [] s (s.onClient fd' (Client.ipcCtWriteMsg msg)) :=
  informs_onClient fd' (fun _ => rfl) fun c _ _ =>
    .of_sent (fun h => h) (fun h => h) (Client.sent_write hmsg c)

theorem ReadyFor.informed (hs : s.ReadyFor fd) (h : Informs F fd msgs s s') :
    s'.ReadyFor fd := by
  obtain ⟨f, hf, hheard⟩ := h
  intro c' hc'
  rw [hf, Option.map_eq_some_iff] at hc'
  obtain ⟨c, hc, rfl⟩ := hc'
  exact (hheard c hc).ready (hs c hc)

theorem Tracks.informed (hs : s.Tracks F fd known k b) (hready : s.ReadyFor fd)
    (h : Informs F fd msgs s s') : s'.Tracks F fd known k (F.after b msgs) := by
  obtain ⟨c, hc, hsubscribes, hk, rfl⟩ := hs
  obtain ⟨f, hf, hheard⟩ := h
  obtain ⟨new, hnew, hafter⟩ := (hheard c hc).told (hready c hc) hsubscribes
  refine ⟨f c, by rw [hf, hc, Option.map_some], (hheard c hc).subscribes hsubscribes, ?_, ?_⟩
  · rw [hnew, List.length_append]
    omega
  · rw [hnew, List.drop_append_of_le_length hk, F.after_append, hafter]

end Client

/-! ## What the operations tell -/

/-- `set` tells that the old entry is not current anymore, and that the new one is. -/
def stateEvents (old new : ℤ) : List EventMsg :=
  (if old > 0 then [.entryState old false] else []) ++
    if new > 0 then [.entryState new true] else []

section Operations
variable (F : Fold β) (fd : ℕ)

theorem informs_set (sql : Sql) (ignore : Option SelectionName) (id : ℤ) (s : State) :
    Informs F fd (stateEvents s.id id) s (s.set sql ignore id) := by
  have hone : ∀ (x : State) (c : Prop) [Decidable c] (i : ℤ) (b : Bool),
      Informs F fd (if c then [.entryState i b] else []) x
        { x with ipc := (if c then ipcEventEntryState i b else fun ipc => ipc) x.ipc } := by
    intro x c _ i b
    split
    · exact informs_emit F fd (.entryState i b) x
    · exact .of_ipc rfl
  exact ((hone s _ _ _).trans (hone _ (id > 0) id true)).congr (set_ipc sql ignore id s)

theorem informs_update {a : Ambient} (hsql : a.sql = allOk) (id : ℤ) (pinned : Option Bool)
    (s : State) :
    Informs F fd [.entryUpdate id (some a.now) pinned] s (s.update a id pinned).2 := by
  rw [update_eq hsql]
  exact (informs_emit F fd (.entryUpdate id (some a.now) pinned) s).congr rfl

theorem informs_deleteAll (ids : List ℤ) (s : State) :
    Informs F fd (ids.map .entryDelete) s
      { s with ipc := ids.foldl (fun ipc id => ipcEventEntryDelete id ipc) s.ipc } := by
  induction ids generalizing s with
  | nil => exact .of_ipc rfl
  | cons id ids ih => exact (informs_emit F fd (.entryDelete id) s).trans (ih _)

theorem informs_trim {a : Ambient} (hsql : a.sql = allOk) (s : State) :
    Informs F fd ((s.db.tables.trim s.config.maxEntries).1.map .entryDelete) s (s.trim a) := by
  rw [State.trim, hsql]
  exact (informs_deleteAll F fd _ s).congr rfl

/-- The transaction in which a duplicate is found out is rolled back before anything is told. -/
theorem informs_movedFront (a : Ambient) (name : SelectionName) (t : Tables) (id pos : ℤ)
    (s : State) : Informs F fd ([.entryUpdate id (some a.now) none, .entryMove id pos 0] ++
      stateEvents s.id id) s (s.movedFront a name t id pos) := by
  have hmoved := (informs_emit F fd (.entryUpdate id (some a.now) none) s).trans
    (informs_emit F fd (.entryMove id pos 0) _)
  exact (hmoved.congr rfl).trans (informs_set F fd a.sql (some name) id _)

theorem informs_committed (a : Ambient) (name : SelectionName) (t : Tables) (id : ℤ) (s : State) :
    Informs F fd (.entryAdd id :: stateEvents s.id id) s (s.committed a name t id) :=
  ((informs_emit F fd (.entryAdd id) s).congr rfl).trans
    (informs_set F fd a.sql (some name) id _)

/-- The current entry is reset before `set`, which has nothing to tell then. -/
theorem informs_entryDeleted (a : Ambient) (fd' : ℕ) (id : ℤ) (s : State) :
    Informs F fd [.entryDelete id] s (s.entryDeleted a fd' id) := by
  have hsent : ∀ x : State, Informs F fd [.entryDelete id] x { x.sendSuccess fd' with
      ipc := ipcEventEntryDelete id (x.sendSuccess fd').ipc } := fun x =>
    (informs_reply F fd fd' rfl x).trans (informs_emit F fd (.entryDelete id) (x.sendSuccess fd'))
  rw [entryDeleted]
  split
  · have hreset : Informs F fd [] s ({ s with id := -1 }.set a.sql none (-1)) :=
      (informs_set F fd a.sql none (-1) { s with id := -1 }).congr_left rfl
    exact hreset.trans (hsent _)
  · exact hsent s

end Operations

/-! ## Requests -/

/-- The request, if it is the client's, leaves it subscribed to these kinds of events. -/
def KeepsFlags (flags : List EventFlag) (req : Request) : Prop :=
  ∀ args events, req = .subscribe (some args) → subscribeEvents args [] = .ok events →
    ∀ flag ∈ flags, flag ∈ events

/-- The view depends on the history and the current entry, and the events of each request that
changes these report what becomes of it. -/
structure Faithful (F : Fold β) (view : State → β) : Prop where
  core : ∀ s s' : State, s'.db.tables.view = s.db.tables.view → s'.id = s.id → view s' = view s
  madeCurrent : ∀ (a : Ambient) (s : State) (id : ℤ), a.sql = allOk →
    F.after (view s) (stateEvents s.id id ++ [.entryUpdate id (some a.now) none]) =
      view ((s.set a.sql none id).update a id none).2
  deleted : ∀ (s s' : State) (id : ℤ), s.db.tables.WF → id ≠ -1 →
    s'.db.tables.view = (s.db.tables.delEntries [id]).view →
    s'.id = (if id = s.id then -1 else s.id) → F.after (view s) [.entryDelete id] = view s'
  cleared : ∀ s s' : State, s'.db.tables.view = [] → s'.id = -1 →
    F.after (view s) [.entryDelete (-1)] = view s'
  pinned : ∀ (a : Ambient) (s : State) (id : ℤ) (flag : Bool), a.sql = allOk →
    F.after (view s) [.entryUpdate id (some a.now) (some flag)] =
      view (s.update a id (some flag)).2

section Requests
variable {F : Fold β} {view : State → β} {fd k : ℕ} {known : β} {a : Ambient} {s s' : State}

theorem entryDeleted_core (a : Ambient) (fd' : ℕ) (id : ℤ) (s : State) :
    (s.entryDeleted a fd' id).db.tables.view = s.db.tables.view ∧
      (s.entryDeleted a fd' id).id = if id = -1 ∨ id = s.id then -1 else s.id := by
  rw [entryDeleted]
  split
  · exact ⟨(set_sameRows ..).view, set_id ..⟩
  · exact ⟨rfl, rfl⟩

theorem Faithful.onClient (hF : Faithful F view) (fd' : ℕ) (f : Client → Client) (s : State) :
    view (s.onClient fd' f) = view s :=
  hF.core s (s.onClient fd' f) rfl rfl

/-- Every request tells the client what it does to the view. -/
theorem Faithful.served (hF : Faithful F view) (hsql : a.sql = allOk) {fd' : ℕ} {req : Request}
    (h : Served a fd' s req s') (hwf : s.db.tables.WF)
    (hkeeps : fd' = fd → KeepsFlags F.flags req) :
    ∃ msgs, Informs F fd msgs s s' ∧ F.after (view s) msgs = view s' := by
  cases h with
  | replied msg hmsg => exact ⟨[], informs_reply F fd fd' hmsg s, (hF.onClient fd' _ s).symm⟩
  | @subscribed args flags hflags =>
    have hset : Informs F fd [] s (s.onClient fd' (Client.ipcClientSetEvents flags)) :=
      informs_onClient fd' (fun _ => rfl) fun c hfd hc =>
        .of_sent (fun hr => hr)
          (fun _ => hkeeps (hfd.symm.trans (findClient_fd hc)) args flags rfl hflags) rfl
    exact ⟨[], hset.trans (informs_reply F fd fd' rfl _),
      ((hF.onClient ..).trans (hF.onClient ..)).symm⟩
  | held n =>
    have hset : Informs F fd [] s (s.onClient fd' (Client.ipcClientAddHold n)) :=
      informs_onClient fd' (fun _ => rfl) fun c _ _ =>
        .of_sent (fun hr => hr) (fun hs => hs) rfl
    exact ⟨[], hset.trans (informs_reply F fd fd' rfl _),
      ((hF.onClient ..).trans (hF.onClient ..)).symm⟩
  | @madeCurrent id hid =>
    refine ⟨_, ((informs_set F fd a.sql none id s).trans
      (informs_update F fd hsql id none _)).trans (informs_reply F fd fd' rfl _), ?_⟩
    rw [List.append_nil, hF.madeCurrent a s id hsql]
    exact (hF.onClient ..).symm
  | @deleted id hid hexists =>
    obtain ⟨hview, hcurrent⟩ := entryDeleted_core a fd' id (s.withoutEntries [id])
    refine ⟨_, (informs_entryDeleted F fd a fd' id (s.withoutEntries [id])).congr_left rfl, ?_⟩
    refine hF.deleted s _ id hwf hid hview (hcurrent.trans ?_)
    simp only [hid, false_or, withoutEntries]
  | cleared =>
    obtain ⟨hview, hcurrent⟩ := entryDeleted_core a fd' (-1)
      (s.withoutEntries (s.db.tables.entries.map Entry.id))
    refine ⟨_, (informs_entryDeleted F fd a fd' (-1) (s.withoutEntries _)).congr_left rfl, ?_⟩
    refine hF.cleared s _ (hview.trans (view_clear hwf)) (hcurrent.trans ?_)
    simp
  | @pinned id pin flag hexists =>
    refine ⟨_, (informs_update F fd hsql id (some flag) s).trans
      (informs_reply F fd fd' rfl _), ?_⟩
    rw [List.append_nil, hF.pinned a s id flag hsql]
    exact (hF.onClient ..).symm

end Requests

/-! ## Requests that are served together -/

/-- The state in which `n` requests of the batch have been served. -/
def serving (ambient : ℕ → Ambient) (client : Client) (req : Request) (n : ℕ) (s : State) : State :=
  (s.onClient client.fd (holdBack client req)).handleRequests ambient client.fd 0
    ((batch client req).take n)

theorem handleRequests_append (ambient : ℕ → Ambient) (fd : ℕ) (reqs more : List Request) (n : ℕ)
    (s : State) : s.handleRequests ambient fd n (reqs ++ more) =
      (s.handleRequests ambient fd n reqs).handleRequests ambient fd (n + reqs.length) more := by
  induction reqs generalizing n s with
  | nil => rfl
  | cons req reqs ih =>
    rw [List.cons_append, handleRequests, ih, handleRequests, List.length_cons, Nat.add_right_comm,
      Nat.add_assoc]

section Batch
variable {F : Fold β} {view : State → β} {fd k : ℕ} {known b : β} {s : State}

theorem handleRequests_wf (hwf : s.db.WF) (ambient : ℕ → Ambient) (fd n : ℕ)
    (reqs : List Request) : (s.handleRequests ambient fd n reqs).db.WF :=
  handleRequests_preserve (P := fun x => x.db.WF) ambient fd (fun _ _ _ h => h)
    (fun n req _ h => requestCallback_wf h (ambient n) fd req) reqs n hwf

/-- A change to a client that keeps its subscription and what was sent to it. -/
theorem Tracks.onClient (hs : s.Tracks F fd known k b) {f : Client → Client} (fd' : ℕ)
    (hf : ∀ c, (f c).fd = c.fd) (hevents : ∀ c, (f c).events = c.events)
    (hsent : ∀ c, (f c).sent = c.sent) : (s.onClient fd' f).Tracks F fd known k b := by
  obtain ⟨c, hc, hsubscribes, hk, hafter⟩ := hs
  refine ⟨if c.fd = fd' then f c else c, by rw [findClient_onClient hf, hc, Option.map_some], ?_⟩
  split
  · rw [Client.Subscribes, hevents, hsent]
    exact ⟨hsubscribes, hk, hafter⟩
  · exact ⟨hsubscribes, hk, hafter⟩

theorem readyFor_served (fd : ℕ) (s : State) :
    (s.onClient fd (fun c => { c with handlingReq := true })).ReadyFor fd := by
  intro c hc
  rw [findClient_onClient (f := fun c => { c with handlingReq := true }) fun _ => rfl,
    Option.map_eq_some_iff] at hc
  obtain ⟨old, hold, rfl⟩ := hc
  rw [if_pos (findClient_fd hold)]
  exact Or.inl rfl

/-- While its own request is handled, the events of the client wait; it does not mind. -/
theorem Faithful.handleRequest (hF : Faithful F view) {a : Ambient} {req : Request}
    (hsql : a.sql = allOk) (hwf : s.db.tables.WF) (hkeeps : KeepsFlags F.flags req)
    (hs : s.Tracks F fd known k (view s)) :
    (s.handleRequest a fd req).Tracks F fd known k (view (s.handleRequest a fd req)) := by
  let opened : State := s.onClient fd (fun c => { c with handlingReq := true })
  have hopened : opened.Tracks F fd known k (view opened) := by
    rw [hF.onClient]
    exact hs.onClient fd (fun _ => rfl) (fun _ => rfl) fun _ => rfl
  obtain ⟨msgs, hinforms, hafter⟩ := hF.served hsql (requestCallback_served hsql fd req opened)
    hwf (fun _ => hkeeps)
  have hserved := hopened.informed (readyFor_served fd s) hinforms
  rw [hafter] at hserved
  rw [State.handleRequest, hF.onClient]
  exact hserved.onClient (f := fun c => { c with handlingReq := false }) fd (fun _ => rfl)
    (fun _ => rfl) fun _ => rfl

theorem Faithful.handleRequests (hF : Faithful F view) {ambient : ℕ → Ambient}
    (hsql : ∀ n, (ambient n).sql = allOk) {reqs : List Request}
    (hkeeps : ∀ req ∈ reqs, KeepsFlags F.flags req) (n : ℕ) (hwf : s.db.WF)
    (hs : s.Tracks F fd known k (view s)) :
    let s' := s.handleRequests ambient fd n reqs
    s'.Tracks F fd known k (view s') := by
  induction reqs generalizing n s with
  | nil => exact hs
  | cons req reqs ih =>
    apply ih (fun r hr => hkeeps r (List.mem_cons_of_mem _ hr))
    · exact handleRequests_wf hwf (fun _ => ambient n) fd 0 [req]
    · exact hF.handleRequest (hsql n) hwf.tables (hkeeps req List.mem_cons_self) hs

/-- From any point of the batch to the end of the message. -/
theorem Faithful.messageCallback (hF : Faithful F view) {ambient : ℕ → Ambient}
    (hsql : ∀ n, (ambient n).sql = allOk) {client : Client} {req : Request} {n : ℕ} (hwf : s.db.WF)
    (hkeeps : ∀ r ∈ (batch client req).drop n, KeepsFlags F.flags r)
    (hs : (s.serving ambient client req n).Tracks F client.fd known k
      (view (s.serving ambient client req n))) :
    let s' := s.messageCallback ambient client (some req)
    s'.Tracks F client.fd known k (view s') := by
  have hmidWf : (s.serving ambient client req n).db.WF :=
    handleRequests_wf (s := s.onClient client.fd (holdBack client req)) hwf ambient client.fd 0 _
  have hrest := hF.handleRequests hsql hkeeps (0 + ((batch client req).take n).length) hmidWf hs
  rw [serving, ← handleRequests_append, List.take_append_drop] at hrest
  dsimp only
  rw [messageCallback_eq, hF.onClient, hF.onClient]
  have hreleased := hrest.onClient client.fd (release_fd client)
    (fun c => by rw [release]; split <;> rfl) fun c => by rw [release]; split <;> rfl
  exact hreleased.onClient (f := Client.ipcClientFlushEvents) client.fd (fun _ => rfl)
    (fun _ => rfl) Client.sent_flush

end Batch

/-! ## Steps -/

/-- The session goes on, and the client stays connected and subscribed. -/
structure StaysSubscribed (flags : List EventFlag) (fd : ℕ) (s : State) (i : Input) : Prop where
  undisturbed : Undisturbed i
  connected : i.event ≠ .disconnect fd
  keeps : ∀ client req, i.event = .message fd (some req) → s.findClient fd = some client →
    ∀ r ∈ batch client req, KeepsFlags flags r

/-- What the client has folded from all that was enqueued is the view of the state. -/
def Holds (F : Fold β) (view : State → β) (fd : ℕ) (known : β) (k : ℕ) (s : State) : Prop :=
  ∃ c, s.findClient fd = some c ∧ c.pendingEvents = [] ∧
    F.after known (c.enqueued.drop k) = view s

instance [DecidableEq β] (F : Fold β) (view : State → β) (fd : ℕ) (known : β) (k : ℕ) (s : State) :
    Decidable (s.Holds F view fd known k) :=
  decidable_of_iff ((s.findClient fd).any (fun c => c.pendingEvents = [] ∧
    F.after known (c.enqueued.drop k) = view s) = true) (by simp [Holds, Option.any_eq_true])

/-- Exactly where the condition holds, the events of a delivered selection event report what
becomes of the view; it holds of all other events. -/
structure Reports (F : Fold β) (view : State → β) (C : State → Input → Prop) : Prop where
  delivered : ∀ (fd : ℕ) (s : State) (i : Input) (name : SelectionName) (seat : Seat)
    (written : ℕ → Option Bytes) (timerOk : Bool),
    i.event = .selection name (some written) timerOk → Delivers s name seat →
    (i.ambient 0).sql = allOk → s.db.tables.WF → s.db.saved = none →
    let s' := (s.withOffer name seat).wsignalSelection (i.ambient 0) name written seat.mimeTypes
      seat.transient
    ∃ msgs, Informs F fd msgs s s' ∧ (F.after (view s) msgs = view s' ↔ C s i)
  other : ∀ s i, NotDelivered s i.event → C s i

section Steps
variable {F : Fold β} {view : State → β} {fd k : ℕ} {known b : β} {s s' : State}

/-- Only the client's own record matters. -/
theorem Tracks.congr (hs : s.Tracks F fd known k b)
    (hclient : s'.findClient fd = s.findClient fd) : s'.Tracks F fd known k b := by
  rwa [Tracks, hclient]

/-- Between steps, no event waits. -/
theorem readyFor_of_reachable (h : Reachable s) : s.ReadyFor fd :=
  fun _ hc => Or.inr (idle_of_reachable h hc).pendingEvents

theorem Tracks.holds_iff (hs : s.Tracks F fd known k b) (h : Reachable s) :
    s.Holds F view fd known k ↔ b = view s := by
  obtain ⟨c, hc, -, hk, hafter⟩ := hs
  have hpending : c.pendingEvents = [] := (idle_of_reachable h hc).pendingEvents
  have hsent : c.sent = c.enqueued := by rw [Client.sent, hpending, List.append_nil]
  rw [hsent] at hafter
  constructor
  · rintro ⟨d, hd, -, h⟩
    obtain rfl := Option.some.inj (hc.symm.trans hd)
    exact hafter.symm.trans h
  · exact fun h => ⟨c, hc, hpending, hafter.trans h⟩

/-- Whether the client still holds the view after a step is up to the condition. -/
theorem Faithful.step (hF : Faithful F view) {C : State → Input → Prop} (hC : Reports F view C)
    {i : Input} (h : Reachable s) (hsaved : s.db.saved = none)
    (hi : StaysSubscribed F.flags fd s i) (hs : s.Tracks F fd known k (view s)) :
    ∃ b, (Swayclip.step s i).Tracks F fd known k b ∧ (b = view (Swayclip.step s i) ↔ C s i) := by
  have hwf : s.db.WF := h.wf.db
  have hready : s.ReadyFor fd := readyFor_of_reachable h
  have htransition := step_transition s i
  generalize Swayclip.step s i = s' at htransition ⊢
  cases htransition with
  | quiet hevent h hclients =>
    have hview : view s' = view s := hF.core s s' (by rw [h.db]) h.id
    cases hclients fd with
    | same hclient =>
      exact ⟨view s, hs.congr hclient, iff_of_true hview.symm (hC.other s i hevent)⟩
    | connected _ hold =>
      obtain ⟨c, hc, -⟩ := hs
      exact absurd (hc.symm.trans hold) (Option.some_ne_none c)
    | gone hgone => exact absurd hgone hi.connected
  | restarted hevent => exact absurd hevent (hi.undisturbed.session _)
  | @delivered name seat written timerOk hevent h =>
    obtain ⟨msgs, hinforms, hafter⟩ := hC.delivered fd s i name seat written timerOk hevent h
      (hi.undisturbed.sql 0) hwf.tables hsaved
    refine ⟨_, (hs.informed hready hinforms).congr rfl, ?_⟩
    rw [hF.core ((s.withOffer name seat).wsignalSelection _ _ _ _ _) (clearMimeTypes name.1 _) rfl
      rfl]
    exact hafter
  | @served fd' msg client hevent hclient =>
    obtain rfl := findClient_fd hclient
    have hother : NotDelivered s i.event := notDelivered (by rw [hevent]; rfl)
    refine ⟨_, ?_, iff_of_true rfl (hC.other s i hother)⟩
    by_cases hfd : client.fd = fd
    · subst hfd
      cases msg with
      | none =>
        rw [State.messageCallback, hF.onClient]
        exact hs.onClient (f := Client.ipcClientFlushEvents) client.fd (fun _ => rfl)
          (fun _ => rfl) Client.sent_flush
      | some req =>
        refine hF.messageCallback (n := 0) hi.undisturbed.sql hwf
          (hi.keeps client req hevent hclient) ?_
        rw [serving, List.take_zero, State.handleRequests, hF.onClient]
        exact hs.onClient client.fd (holdBack_fd client req)
          (fun c => by rw [holdBack]; split <;> rfl) fun c => by rw [holdBack]; split <;> rfl
    · refine (messageCallback_requests
        (P := fun x => x.db.WF ∧ x.ReadyFor fd ∧ x.Tracks F fd known k (view x)) i.ambient client
        (fun f hf x hx => ?_) (fun n req x hx => ?_) msg ⟨hwf, hready, hs⟩).2.2
      · have hsame := findClient_onClient_of_ne hf hfd x
        rw [hF.onClient, ReadyFor, hsame]
        exact ⟨hx.1, hx.2.1, hx.2.2.congr hsame⟩
      · obtain ⟨msgs, hinforms, hafter⟩ := hF.served (hi.undisturbed.sql n)
          (requestCallback_served (hi.undisturbed.sql n) client.fd req x) hx.1.tables
          (fun h => absurd h hfd)
        rw [← hafter]
        exact ⟨requestCallback_wf hx.1 (i.ambient n) client.fd req,
          hx.2.1.informed hinforms, hx.2.2.informed hx.2.1 hinforms⟩

end Steps

end State

/-- A client that knows the view at some moment at which it is subscribed, be it between two
requests that are served together, and folds the events that are emitted to it from then on, holds
the view after every later step exactly in the runs whose steps meet the condition. -/
theorem holds_iff_meets {F : Fold β} {view : State → β} {C : State → Input → Prop}
    (hF : State.Faithful F view) (hC : State.Reports F view C) (config : Config) (a : Ambient)
    {earlier inputs : List Input} (hearlier : ∀ i ∈ earlier, ∀ n, (i.ambient n).sql = allOk)
    {fd n : ℕ} {client c₀ : Client}
    (hclient : (run step (boot config a) earlier).findClient fd = some client) {req : Request}
    (ambient : ℕ → Ambient) (hsql : ∀ n, (ambient n).sql = allOk)
    (hmoment : ((run step (boot config a) earlier).serving ambient client req n).findClient fd =
      some c₀) (hsubscribed : c₀.Subscribes F.flags)
    (hkeeps : ∀ r ∈ (State.batch client req).drop n, State.KeepsFlags F.flags r)
    (hinputs : Meets step (State.StaysSubscribed F.flags fd)
      (run step (boot config a) (earlier ++ [⟨.message fd (some req), ambient⟩])) inputs) :
    let known := view ((run step (boot config a) earlier).serving ambient client req n)
    let served := run step (boot config a) (earlier ++ [⟨.message fd (some req), ambient⟩])
    served.Holds F view fd known c₀.sent.length ∧
      (Meets step (fun s i => (step s i).Holds F view fd known c₀.sent.length) served inputs ↔
        Meets step C served inputs) := by
  intro known served
  obtain rfl := State.findClient_fd hclient
  obtain ⟨hreach, hsaved⟩ := run_saved config a
    (earlier ++ [⟨.message client.fd (some req), ambient⟩]) (by
      simp only [List.mem_append, List.mem_singleton]
      rintro i (hi | rfl)
      · exact hearlier i hi
      · exact hsql)
  have hstep : served =
      (run step (boot config a) earlier).messageCallback ambient client (some req) := by
    simp only [served, run_append, run_cons, run_nil, step, State.handle, hclient]
  have htracks : served.Tracks F client.fd known c₀.sent.length (view served) := by
    rw [hstep]
    refine hF.messageCallback hsql (run_saved config a earlier hearlier).1.wf.db hkeeps ?_
    exact ⟨c₀, hmoment, hsubscribed, le_rfl, by rw [List.drop_length, Fold.after_nil]⟩
  refine ⟨(htracks.holds_iff hreach).mpr rfl, ?_⟩
  have hiff : Meets step (fun s i => State.StaysSubscribed F.flags client.fd s i ∧
        (step s i).Holds F view client.fd known c₀.sent.length) served inputs ↔
      Meets step (fun s i => State.StaysSubscribed F.flags client.fd s i ∧ C s i) served inputs :=
    Meets.iff_of_invariant (I := fun s => Reachable s ∧ s.db.saved = none ∧
      s.Tracks F client.fd known c₀.sent.length (view s))
    (fun s i _ hs => and_congr_right fun hi => ?_) (fun s i _ hs hi => ?_)
    ⟨hreach, hsaved, htracks⟩
  · constructor
    · exact fun h => (hiff.mp (hinputs.and h)).imp fun _ _ h => h.2
    · exact fun h => (hiff.mpr (hinputs.and h)).imp fun _ _ h => h.2
  · obtain ⟨b, hb, hview⟩ := hF.step hC hs.1 hs.2.1 hi hs.2.2
    rw [hb.holds_iff (hs.1.step i), hview]
  · obtain ⟨b, hb, -⟩ := hF.step hC hs.1 hs.2.1 hi.1 hs.2.2
    obtain rfl := (hb.holds_iff (hs.1.step i)).mp hi.2
    exact ⟨hs.1.step i, State.step_saved hi.1.undisturbed.sql hs.1.wf.db.tables hs.2.1, hb⟩

/-- The event is not the client's own and does not end the session. -/
def Event.sparesClient (fd : ℕ) : Event → Bool
  | .restart _ => false
  | .disconnect fd' => fd' ≠ fd
  | .message fd' _ => fd' ≠ fd
  | _ => true

theorem staysSubscribed_others (flags : List EventFlag) {fd : ℕ} {i : Input}
    (hi : ∀ n, (i.ambient n).sql = allOk) (hevent : i.event.sparesClient fd = true) (s : State) :
    State.StaysSubscribed flags fd s i := by
  refine ⟨⟨hi, fun config h => ?_⟩, fun h => ?_, fun client req h => ?_⟩ <;> rw [h] at hevent <;>
    simp [Event.sparesClient] at hevent

end Swayclip
