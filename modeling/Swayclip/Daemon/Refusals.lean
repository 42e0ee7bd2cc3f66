import Swayclip.Daemon.Clearing
import Swayclip.Daemon.Exchange

/-! # Requests that are refused

A request that is answered with an error has done nothing, with one exception: `set_clipboard`
makes the entry current before it refreshes the update time of the entry, and only that can
still fail. An entry that is current already is offered with new sources all the same.
-/

namespace Swayclip
open Library.Runs

/-- The message reports that a request was refused. -/
def Message.isError : Message → Bool
  | .error _ => true
  | _ => false

/-- The enabled selections of the seat get no source, and where they are cleared, they have none. -/
def Seat.Settled (callback : SelectionName → SetResult) (seat : Seat) : Prop :=
  seat.enabled = true → ∀ type, (seat.sel type).enabled = true →
    (callback (seat.globalName, type)).1 = none ∧
      ((callback (seat.globalName, type)).2 = true → (seat.sel type).extDataSource = none)

/-- A new source is a change, whatever it offers. -/
theorem selectionSet_eq_self_iff {result : SetResult} {sel : Selection} :
    selectionSet result sel = sel ↔
      result.1 = none ∧ (result.2 = true → sel.extDataSource = none) := by
  obtain ⟨source, clear⟩ := result
  obtain ⟨enabled, offer, held, timer, created⟩ := sel
  cases source with
  | some source => simp [selectionSet]
  | none => cases clear <;> simp [selectionSet, eq_comm]

theorem seatSet_eq_self_iff {callback : SelectionName → SetResult} {seat : Seat} :
    seatSet callback none seat = seat ↔ ∀ type, (seat.sel type).enabled = true →
      (callback (seat.globalName, type)).1 = none ∧
        ((callback (seat.globalName, type)).2 = true → (seat.sel type).extDataSource = none) := by
  simp only [← selectionSet_eq_self_iff]
  have hsel := seatSet_sel callback none seat
  constructor
  · intro h type henabled
    have htype := hsel type
    rw [h, if_pos ⟨henabled, by simp⟩] at htype
    exact htype.symm
  · intro h
    have hkeep : ∀ (seat : Seat) type, seat.setSel type (seat.sel type) = seat := by
      intro seat type
      cases type <;> rfl
    have hone : ∀ type, seat.setUnless callback none type = seat := by
      intro type
      unfold Seat.setUnless
      split
      · rename_i hset
        rw [h type hset.1, hkeep]
      · rfl
    rw [seatSet, hone, hone]

theorem waylandSet_eq_self_iff {callback : SelectionName → SetResult} {seats : List Seat} :
    waylandSet callback none seats = seats ↔ ∀ seat ∈ seats, seat.Settled callback := by
  rw [waylandSet]
  conv_lhs => rhs; rw [← List.map_id seats]
  rw [List.map_inj_left]
  apply forall₂_congr
  intro seat _
  by_cases henabled : seat.enabled = true
  · rw [if_pos henabled, id, seatSet_eq_self_iff]
    exact ⟨fun h _ => h, fun h => h henabled⟩
  · rw [if_neg henabled]
    exact ⟨fun _ h => absurd h henabled, fun _ => rfl⟩

theorem Client.length_sent_emit (msg : EventMsg) (c : Client) :
    (c.emit msg).sent.length = c.sent.length + if msg.flag ∈ c.events then 1 else 0 := by
  rw [emit]
  split
  · split
    · simp [sent, enqueued]
      omega
    · simp [sent, enqueued, ipcCtWriteMsg, Message.event?, List.filterMap_append]
      omega
  · rfl

namespace State

/-- What a request that is refused leaves as it was. -/
structure Untouched (s s' : State) : Prop where
  tables : s'.db.tables = s.db.tables
  id : s'.id = s.id
  cleared : s'.cleared = s.cleared
  seats : s'.seats = s.seats
  subscriptions : s'.ipc.map Client.events = s.ipc.map Client.events
  hold : s'.ipc.map Client.hold = s.ipc.map Client.hold
  sent : s'.ipc.map Client.sent = s.ipc.map Client.sent

/-- The client is answered with an error. -/
def AnswersError (a : Ambient) (fd : ℕ) (req : Request) (s : State) : Prop :=
  ∃ c c' desc, s.findClient fd = some c ∧ (s.handleRequest a fd req).findClient fd = some c' ∧
    c'.writeQueue = c.writeQueue ++ [.error desc]

/-- `set_clipboard` with an id that it accepts, whose update time cannot be refreshed. -/
structure FailsLate (a : Ambient) (id : ℤ) (s : State) : Prop where
  accepted : id = -1 ∨ databaseIdExists (a.sql .idExists 0) id s.db = true
  refused : a.sql .updateEntry 0 = false

/-- Making the entry current changes nothing: it is current already, it is saved as such or
cannot be saved, nobody is to be told, and no selection gets a source or loses one. -/
structure AlreadySet (a : Ambient) (id : ℤ) (s : State) : Prop where
  current : s.id = id
  cleared : id = -1 → s.cleared = true
  saved : id > 0 → a.sql .saveSetting 0 = true → s.db.tables.lastEntry = some id
  silent : id > 0 → ∀ c ∈ s.ipc, .entryState ∉ c.events
  settled : ∀ seat ∈ s.seats, seat.Settled (s.setCallback a.sql)

/-! ## How requests are answered -/

/-- The last message of a client whose events are delayed. -/
def EndsWith (fd : ℕ) (msg : Message) (s : State) : Prop :=
  ∀ c, s.findClient fd = some c → c.handlingReq = true → c.writeQueue.getLast? = some msg

section Ends
variable {fd : ℕ} {msg : Message} {s : State}

theorem endsWith_reply (fd : ℕ) (msg : Message) (s : State) :
    (s.onClient fd (Client.ipcCtWriteMsg msg)).EndsWith fd msg := by
  intro c hc _
  have hfd : ∀ c : Client, (c.ipcCtWriteMsg msg).fd = c.fd := fun _ => rfl
  rw [findClient_onClient hfd] at hc
  obtain ⟨c₀, hc₀, rfl⟩ := Option.map_eq_some_iff.mp hc
  rw [if_pos (findClient_fd hc₀)]
  exact List.getLast?_concat

theorem EndsWith.emit (h : s.EndsWith fd msg) (event : EventMsg) :
    ({ s with ipc := ipcEvent event s.ipc } : State).EndsWith fd msg := by
  intro c hc hhandling
  rw [findClient_emit] at hc
  obtain ⟨c₀, hc₀, rfl⟩ := Option.map_eq_some_iff.mp hc
  rw [Client.emit_handlingReq] at hhandling
  have hqueue : (c₀.emit event).writeQueue = c₀.writeQueue := by
    rw [Client.emit, if_pos hhandling]
    split <;> rfl
  rw [hqueue]
  exact h c₀ hc₀ hhandling

end Ends

/-- How a request is answered: with an error and nothing else, with a message that is no error,
or with an error after the entry has been made current. -/
inductive Ruling (a : Ambient) (fd : ℕ) (s : State) : Request → State → Prop
  | refused {req : Request} (desc : Bytes) : Ruling a fd s req (s.sendError fd desc)
  | granted {req : Request} {s' : State} {msg : Message} (hmsg : msg.isError = false)
      (hends : s'.EndsWith fd msg) : Ruling a fd s req s'
  | late {id : ℤ} (hlate : s.FailsLate a id) :
      Ruling a fd s (.setClipboard (some id)) ((s.set a.sql none id).sendError fd ipcDbError)

section Ruling
variable {a : Ambient} {fd : ℕ} {s : State} {req : Request}

theorem Ruling.success (x : State) : Ruling a fd s req (x.sendSuccess fd) :=
  .granted rfl (endsWith_reply fd (.success none) x)

theorem Ruling.reply {msg : Message} (hmsg : msg.isError = false) (x : State) :
    Ruling a fd s req (x.onClient fd (Client.ipcCtWriteMsg msg)) :=
  .granted hmsg (endsWith_reply fd msg x)

theorem Ruling.deleted (id : ℤ) (x : State) : Ruling a fd s req (x.entryDeleted a fd id) :=
  .granted rfl ((endsWith_reply fd (.success none) _).emit (.entryDelete id))

theorem databaseUpdateEntry_failed {ok : Bool} {now id : ℤ} {pinned : Option Bool}
    {db db' : Database}
    (h : databaseUpdateEntry ok now id pinned db = (none, db')) : ok = false ∧ db' = db := by
  unfold databaseUpdateEntry at h
  cases ok with
  | true => cases h
  | false => exact ⟨rfl, (Prod.mk.inj h).2.symm⟩

theorem update_failed {id : ℤ} {pinned : Option Bool} (h : (s.update a id pinned).1 = false) :
    a.sql .updateEntry 0 = false ∧ (s.update a id pinned).2 = s := by
  unfold update at h ⊢
  cases hcall : databaseUpdateEntry (a.sql .updateEntry 0) a.now id pinned s.db with
  | mk t db =>
    rw [hcall] at h
    cases t with
    | some t => cases h
    | none =>
      obtain ⟨hfails, rfl⟩ := databaseUpdateEntry_failed hcall
      exact ⟨hfails, rfl⟩

theorem serveSetClipboard_ruling (id : Option ℤ) :
    Ruling a fd s (.setClipboard id) (s.serveSetClipboard a fd id) := by
  cases id with
  | none => exact .refused ipcInvalidArgs
  | some id =>
    simp only [serveSetClipboard]
    split
    · exact .refused (idDoesNotExist id)
    · rename_i haccepted
      split
      · exact .success _
      · rename_i hfails
        obtain ⟨hrefused, hsame⟩ := update_failed (by simpa using hfails)
        rw [hsame]
        refine .late ⟨?_, hrefused⟩
        by_cases hclear : id = -1
        · exact Or.inl hclear
        · exact Or.inr (by simpa [hclear] using haccepted)

/-- A statement that fails changes nothing. -/
theorem exec_failed {ok : Bool} {f : Tables → Option Tables} {db db' : Database}
    (h : db.exec ok f = (false, db')) : db' = db := by
  unfold Database.exec at h
  split at h
  · cases h
  · exact (Prod.mk.inj h).2.symm

theorem serveDeleteEntry_ruling (id : Option ℤ) :
    Ruling a fd s (.deleteEntry id) (s.serveDeleteEntry a fd id) := by
  cases id with
  | none => exact .refused ipcInvalidArgs
  | some id =>
    simp only [serveDeleteEntry]
    split
    · split
      · rename_i db hclear
        obtain rfl := exec_failed hclear
        exact .refused ipcDbError
      · exact .deleted id _
    · split
      · exact .refused (idDoesNotExist id)
      · split
        · rename_i db hdelete
          obtain rfl := exec_failed hdelete
          exact .refused ipcDbError
        · exact .deleted id _

theorem servePinEntry_ruling (id : Option ℤ) (pin : Option PinArg) :
    Ruling a fd s (.pinEntry id pin) (s.servePinEntry a fd id pin) := by
  unfold servePinEntry
  split
  · rename_i id pin
    split
    · exact .refused (idDoesNotExist id)
    · split
      · exact .refused ipcInvalidArgs
      · rename_i flag _
        dsimp only
        split
        · exact .success _
        · rename_i hfails
          rw [(update_failed (by simpa using hfails)).2]
          exact .refused ipcDbError
  · exact .refused ipcInvalidArgs

theorem serveGetData_ruling (id : Option ℤ) (mimeType : Option CString) :
    Ruling a fd s (.getData id mimeType) (s.serveGetData a fd id mimeType) := by
  unfold serveGetData
  split
  · split
    · exact .refused _
    · split
      · exact .reply rfl s
      · exact .refused _
      · exact .refused _
      · exact .refused _
  · exact .refused _

theorem requestCallback_ruling (a : Ambient) (fd : ℕ) (req : Request) (s : State) :
    Ruling a fd s req (s.requestCallback a fd req) := by
  cases req with
  | subscribe events =>
    simp only [requestCallback, serveSubscribe]
    split
    · exact .refused _
    · split
      · exact .refused _
      · exact .success _
  | getHistoryLength =>
    simp only [requestCallback, serveGetHistoryLength]
    split
    · exact .refused _
    · exact .reply rfl s
  | getHistory start n =>
    simp only [requestCallback, serveGetHistory]
    split
    · split
      · exact .refused _
      · exact .reply rfl s
    · exact .refused _
  | getData id mimeType => exact serveGetData_ruling id mimeType
  | setClipboard id => exact serveSetClipboard_ruling id
  | deleteEntry id => exact serveDeleteEntry_ruling id
  | pinEntry id pin => exact servePinEntry_ruling id pin
  | getCurrent => exact .reply rfl s
  | holdRequests n =>
    simp only [requestCallback, serveHoldRequests]
    split
    · exact .refused _
    · split
      · exact .refused _
      · exact .success _
  | invalid => exact .refused _

end Ruling

/-! ## What a refused request leaves as it was -/

section Untouched
variable {s s' s'' : State}

theorem Untouched.symm (h : s.Untouched s') : s'.Untouched s :=
  ⟨h.tables.symm, h.id.symm, h.cleared.symm, h.seats.symm, h.subscriptions.symm, h.hold.symm,
    h.sent.symm⟩

theorem Untouched.trans (h : s.Untouched s') (h' : s'.Untouched s'') : s.Untouched s'' :=
  ⟨h'.tables.trans h.tables, h'.id.trans h.id, h'.cleared.trans h.cleared,
    h'.seats.trans h.seats, h'.subscriptions.trans h.subscriptions, h'.hold.trans h.hold,
    h'.sent.trans h.sent⟩

theorem map_onClient {β : Type*} {g : Client → β} {f : Client → Client} (h : ∀ c, g (f c) = g c)
    (fd : ℕ) (s : State) : (s.onClient fd f).ipc.map g = s.ipc.map g := by
  rw [onClient, List.map_map]
  apply List.map_congr_left
  intro c _
  rw [Function.comp_apply]
  split
  · exact h c
  · rfl

theorem untouched_onClient {f : Client → Client} (hevents : ∀ c, (f c).events = c.events)
    (hhold : ∀ c, (f c).hold = c.hold) (hsent : ∀ c, (f c).sent = c.sent) (fd : ℕ) (s : State) :
    s.Untouched (s.onClient fd f) :=
  ⟨rfl, rfl, rfl, rfl, map_onClient hevents fd s, map_onClient hhold fd s, map_onClient hsent fd s⟩

theorem untouched_sendError (fd : ℕ) (desc : Bytes) (s : State) :
    s.Untouched (s.sendError fd desc) :=
  untouched_onClient (f := ipcClientSendError desc) (fun _ => rfl) (fun _ => rfl)
    (fun c => Client.sent_write rfl c) fd s

/-- What `request_callback` leaves alone, the whole handling of the request leaves alone. -/
theorem untouched_handleRequest_iff {a : Ambient} {fd : ℕ} {req : Request} :
    s.Untouched (s.handleRequest a fd req) ↔
      (s.onClient fd (fun c => { c with handlingReq := true })).Untouched
        ((s.onClient fd (fun c => { c with handlingReq := true })).requestCallback a fd req) := by
  have hopened := untouched_onClient (f := fun c => { c with handlingReq := true })
    (fun _ => rfl) (fun _ => rfl) (fun _ => rfl) fd s
  have hclosed := untouched_onClient (f := fun c => { c with handlingReq := false })
    (fun _ => rfl) (fun _ => rfl) (fun _ => rfl) fd
    ((s.onClient fd (fun c => { c with handlingReq := true })).requestCallback a fd req)
  constructor
  · intro h
    exact hopened.symm.trans (h.trans hclosed.symm)
  · intro h
    exact hopened.trans (h.trans hclosed)

theorem wsignalSet_congr (hid : s'.id = s.id) (hcleared : s'.cleared = s.cleared)
    (htransient : s'.transient = s.transient) (htables : s'.db.tables = s.db.tables) (sql : Sql) :
    s'.setCallback sql = s.setCallback sql := by
  funext name
  simp only [setCallback, wsignalSet, offeredTypes, wsignalSend, databaseGetMimeTypes,
    databaseGetData, hid, hcleared, htransient, htables]

end Untouched

section Set
variable {a : Ambient} {id : ℤ} {s : State}

theorem lastEntry_saved (h : s.Untouched (s.set a.sql none id)) (hid : id > 0)
    (hsave : a.sql .saveSetting 0 = true) : s.db.tables.lastEntry = some id := by
  have htables := h.tables
  rw [set_db, if_pos hid, databaseSaveSetting, hsave] at htables
  exact (congrArg Tables.lastEntry htables).symm

theorem tables_kept (h : s.AlreadySet a id) : (s.set a.sql none id).db = s.db := by
  rw [set_db]
  split
  · rename_i hid
    rw [databaseSaveSetting]
    cases hsave : a.sql .saveSetting 0 with
    | false => rfl
    | true =>
      have hlast := h.saved hid hsave
      cases hdb : s.db with
      | mk tables saved =>
        rw [hdb] at hlast
        simp only [Database.exec, ← hlast]
  · rfl

/-- Nobody has subscribed to the two events, if there are any. -/
theorem nobody_told (h : s.Untouched (s.set a.sql none id)) (hid : id > 0) :
    ∀ c ∈ s.ipc, .entryState ∉ c.events := by
  have hcurrent : s.id > 0 := by
    have := h.id
    rw [set_id] at this
    omega
  have hsent := h.sent
  rw [set_ipc, if_pos hid, if_pos hcurrent, ipcEventEntryState, ipcEventEntryState,
    ipcEvent_eq_map, ipcEvent_eq_map, List.map_map, List.map_map, List.map_inj_left] at hsent
  intro c hc hsubscribed
  have hlength := congrArg List.length (hsent c hc)
  simp only [Function.comp_apply, Client.length_sent_emit, Client.emit_events] at hlength
  rw [if_pos (show EventMsg.flag (.entryState id true) ∈ c.events from hsubscribed)] at hlength
  omega

theorem clients_kept (h : s.AlreadySet a id) : (s.set a.sql none id).ipc = s.ipc := by
  rw [set_ipc, h.current]
  by_cases hid : id > 0
  · have hquiet : ∀ state, ipcEventEntryState id state s.ipc = s.ipc := by
      intro state
      rw [ipcEventEntryState, ipcEvent_eq_map]
      have hemit : ∀ c ∈ s.ipc, c.emit (.entryState id state) = c :=
        fun c hc => if_neg (h.silent hid c hc)
      exact (List.map_congr_left hemit).trans (List.map_id' s.ipc)
    rw [if_pos hid, if_pos hid, hquiet, hquiet]
  · rw [if_neg hid, if_neg hid]

theorem untouched_set_iff : s.Untouched (s.set a.sql none id) ↔ s.AlreadySet a id := by
  constructor
  · intro h
    have hid : s.id = id := by
      have := h.id
      rw [set_id] at this
      exact this.symm
    refine ⟨hid, ?_, lastEntry_saved h, nobody_told h, ?_⟩
    · intro hclear
      have hcleared := h.cleared
      rw [set_cleared] at hcleared
      rw [← hcleared]
      simp [hclear]
    · have hseats := h.seats
      rw [set_seats, wsignalSet_congr h.id h.cleared (set_transient ..) h.tables] at hseats
      exact waylandSet_eq_self_iff.mp hseats
  · intro h
    have hcleared : (s.set a.sql none id).cleared = s.cleared := by
      rw [set_cleared]
      by_cases hclear : id = -1
      · simp [h.cleared hclear]
      · simp [hclear]
    have hid : (s.set a.sql none id).id = s.id := (set_id ..).trans h.current.symm
    have htables := congrArg Database.tables (tables_kept h)
    have hipc := clients_kept h
    refine ⟨htables, hid, hcleared, ?_, by rw [hipc], by rw [hipc], by rw [hipc]⟩
    rw [set_seats, wsignalSet_congr hid hcleared (set_transient ..) htables]
    exact waylandSet_eq_self_iff.mpr h.settled

theorem alreadySet_onClient_iff {f : Client → Client} (hf : ∀ c, (f c).events = c.events) (fd : ℕ) :
    (s.onClient fd f).AlreadySet a id ↔ s.AlreadySet a id := by
  have hsilent : (∀ c ∈ (s.onClient fd f).ipc, EventFlag.entryState ∉ c.events) ↔
      ∀ c ∈ s.ipc, EventFlag.entryState ∉ c.events := by
    have hmap := map_onClient hf fd s
    rw [← List.forall_mem_map (f := Client.events) (P := fun e => EventFlag.entryState ∉ e), hmap,
      List.forall_mem_map]
  constructor
  · rintro ⟨hid, hcleared, hsaved, hquiet, hsettled⟩
    exact ⟨hid, hcleared, hsaved, fun h => hsilent.mp (hquiet h), hsettled⟩
  · rintro ⟨hid, hcleared, hsaved, hquiet, hsettled⟩
    exact ⟨hid, hcleared, hsaved, fun h => hsilent.mpr (hquiet h), hsettled⟩

end Set

section Requests
variable {a : Ambient} {fd : ℕ} {req : Request} {s : State} {c : Client}

/-- The state in which `request_callback` runs. -/
abbrev whileHandling (fd : ℕ) (s : State) : State :=
  s.onClient fd fun c => { c with handlingReq := true }

/-- The client finds the message at the end of what it is written. -/
theorem answered_with {msg : Message} (hc : s.findClient fd = some c)
    (hends : ((s.whileHandling fd).requestCallback a fd req).EndsWith fd msg) :
    ∃ c', (s.handleRequest a fd req).findClient fd = some c' ∧
      c'.writeQueue = c.writeQueue ++ [msg] := by
  obtain ⟨c', hc', hanswered⟩ := handleRequest_answered a req hc
  obtain ⟨msg', hreply⟩ := List.length_eq_one_iff.mp (hanswered.one _ (List.mem_singleton_self _))
  have hqueue := hanswered.replies
  rw [List.flatMap_singleton, hreply] at hqueue
  have hopened := findClient_onClient_self (f := fun c => { c with handlingReq := true })
    (fun _ => rfl) hc
  obtain ⟨outputs, htells, -⟩ := requestCallback_replies a fd req s
  have hserved := htells.findClient fd fun c => { c with handlingReq := true }
  rw [hopened, Option.map_some] at hserved
  have hclosed := findClient_onClient_self (f := fun c => { c with handlingReq := false })
    (fun _ => rfl) hserved
  obtain rfl := Option.some.inj (hc'.symm.trans hclosed)
  have hlast := hends _ hserved
    (Client.receiveAll_keeps (c := { c with handlingReq := true }) fd outputs).2.1
  rw [show _ = c.writeQueue ++ [msg'] from hqueue, List.getLast?_concat] at hlast
  obtain rfl := Option.some.inj hlast
  exact ⟨_, hc', hqueue⟩

theorem answersError_iff {msg : Message} (hc : s.findClient fd = some c)
    (hends : ((s.whileHandling fd).requestCallback a fd req).EndsWith fd msg) :
    s.AnswersError a fd req ↔ msg.isError = true := by
  obtain ⟨c', hc', hqueue⟩ := answered_with hc hends
  constructor
  · rintro ⟨c₀, c₁, desc, hc₀, hc₁, herror⟩
    obtain rfl := Option.some.inj (hc.symm.trans hc₀)
    obtain rfl := Option.some.inj (hc'.symm.trans hc₁)
    have hsame := List.append_cancel_left (hqueue.symm.trans herror)
    rw [List.singleton_inj.mp hsame, Message.isError]
  · intro hmsg
    cases msg with
    | error desc => exact ⟨c, c', desc, hc, hc', hqueue⟩
    | _ => cases hmsg

theorem requestCallback_late {id : ℤ} (hlate : s.FailsLate a id) :
    s.requestCallback a fd (.setClipboard (some id)) =
      (s.set a.sql none id).sendError fd ipcDbError := by
  have haccepted : ¬ (id ≠ -1 ∧ !databaseIdExists (a.sql .idExists 0) id s.db) := by
    rintro ⟨hid, hmissing⟩
    rw [hlate.accepted.resolve_left hid] at hmissing
    cases hmissing
  have hupdate : (s.set a.sql none id).update a id none = (false, s.set a.sql none id) := by
    rw [update, databaseUpdateEntry, hlate.refused]
    rfl
  simp only [requestCallback, serveSetClipboard, if_neg haccepted, hupdate, Bool.false_eq_true,
    if_false]

theorem FailsLate.whileHandling {id : ℤ} (h : s.FailsLate a id) (fd : ℕ) :
    (s.whileHandling fd).FailsLate a id :=
  ⟨h.accepted, h.refused⟩

theorem untouched_late_iff {id : ℤ} (hlate : s.FailsLate a id) :
    s.Untouched (s.handleRequest a fd (.setClipboard (some id))) ↔ s.AlreadySet a id := by
  have herror := untouched_sendError fd ipcDbError ((s.whileHandling fd).set a.sql none id)
  rw [untouched_handleRequest_iff, requestCallback_late (hlate.whileHandling fd),
    ← alreadySet_onClient_iff (f := fun c => { c with handlingReq := true }) (fun _ => rfl) fd,
    ← untouched_set_iff]
  exact ⟨fun h => h.trans herror.symm, fun h => h.trans herror⟩

theorem answersError_of_late {id : ℤ} (hc : s.findClient fd = some c) (hlate : s.FailsLate a id) :
    s.AnswersError a fd (.setClipboard (some id)) := by
  have hends : ((s.whileHandling fd).requestCallback a fd (.setClipboard (some id))).EndsWith fd
      (.error (ipcDbError.take 255)) := by
    rw [requestCallback_late (hlate.whileHandling fd)]
    exact endsWith_reply fd _ _
  exact (answersError_iff hc hends).mpr rfl

end Requests

/-- Of the requests that are answered with an error, only `set_clipboard` can have done anything:
it has whenever the update time of the entry could not be refreshed, unless there was nothing
left to do. -/
theorem error_untouched_iff {fd : ℕ} {s : State} {c : Client} (hc : s.findClient fd = some c)
    (a : Ambient) (req : Request) :
    (s.AnswersError a fd req → s.Untouched (s.handleRequest a fd req)) ↔
      ∀ id, req = .setClipboard (some id) → s.FailsLate a id → s.AlreadySet a id := by
  constructor
  · rintro h id rfl hlate
    exact (untouched_late_iff hlate).mp (h (answersError_of_late hc hlate))
  · intro h herror
    have hruling := requestCallback_ruling a fd req (s.whileHandling fd)
    rw [untouched_handleRequest_iff]
    generalize hserved : (s.whileHandling fd).requestCallback a fd req = s' at hruling ⊢
    cases hruling with
    | refused desc => exact untouched_sendError fd desc _
    | granted hmsg hends =>
      rw [← hserved] at hends
      rw [(answersError_iff hc hends).mp herror] at hmsg
      cases hmsg
    | @late id hlate =>
      have hlate' : s.FailsLate a id := ⟨hlate.accepted, hlate.refused⟩
      have hset : s.Untouched (s.handleRequest a fd (.setClipboard (some id))) :=
        (untouched_late_iff hlate').mpr (h id rfl hlate')
      rwa [untouched_handleRequest_iff, hserved] at hset

end State

/-- A client asks for an entry that does not exist. -/
theorem missing_untouched :
    let s := step (firstSession configInit) (.quiet (.connect 0))
    s.findClient 0 = some (ipcAddClient 0) ∧
      (s.AnswersError (.quiet 0) 0 (.setClipboard (some 7)) →
        s.Untouched (s.handleRequest (.quiet 0) 0 (.setClipboard (some 7)))) := by
  refine ⟨rfl, (State.error_untouched_iff rfl (.quiet 0) (.setClipboard (some 7))).mpr ?_⟩
  rintro id hid ⟨haccepted, -⟩
  obtain rfl : 7 = id := by simpa using hid
  exact absurd haccepted (by decide)

/-- Update times cannot be refreshed. -/
def updateFails : Ambient :=
  { Ambient.quiet 0 with sql := fun stmt _ => match stmt with
      | .updateEntry => false
      | _ => true }

/-- Two texts have been copied when a client connects. -/
def twoTexts : List Input :=
  copy (0, .regular) [(textPlain, [65])] ++ copy (0, .regular) [(textPlain, [66])] ++
    [.quiet (.connect 0)]

/-- The client asks for the first text and is told that the request failed, but the first text
is the current entry now. -/
theorem setThenRefused :
    let s := run step (firstSession configInit) twoTexts
    Reachable s ∧ s.AnswersError updateFails 0 (.setClipboard (some 1)) ∧ s.id = 2 ∧
      ¬ s.Untouched (s.handleRequest updateFails 0 (.setClipboard (some 1))) := by
  refine ⟨(firstSession_reachable configInit).run twoTexts, ?_, by decide +kernel, ?_⟩
  · obtain ⟨c, hc⟩ : ∃ c, (run step (firstSession configInit) twoTexts).findClient 0 = some c :=
      Option.isSome_iff_exists.mp (by decide +kernel)
    exact State.answersError_of_late hc ⟨Or.inr (by decide +kernel), rfl⟩
  · intro h
    exact absurd h.id (by decide +kernel)

end Swayclip
