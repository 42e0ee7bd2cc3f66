import Swayclip.Daemon.Serving

/-! # What a request tells the clients

Whatever fails, a request writes one reply to its client. All that it does to the clients is
a list of outputs that does not depend on them: the reply, events for everybody, and changes
to the record of its own client.
-/

namespace Swayclip

/-- One thing that a request does to the clients. -/
inductive Output where
  | reply (msg : Message)
  | emit (msg : EventMsg)
  | subscribe (events : List EventFlag)
  | hold (n : ℤ)

/-- The reply, if the output is one. -/
def Output.reply? : Output → Option Message
  | .reply msg => some msg
  | _ => none

/-- The number of requests to hold, if the output is one. -/
def Output.hold? : Output → Option ℤ
  | .hold n => some n
  | _ => none

/-- What a client sees of an output of the client with the descriptor. -/
def Client.receive (fd : ℕ) (client : Client) : Output → Client
  | .reply msg => if client.fd = fd then client.ipcCtWriteMsg msg else client
  | .emit msg => client.emit msg
  | .subscribe events => if client.fd = fd then client.ipcClientSetEvents events else client
  | .hold n => if client.fd = fd then client.ipcClientAddHold n else client

def Client.receiveAll (fd : ℕ) (outputs : List Output) (client : Client) : Client :=
  outputs.foldl (Client.receive fd) client

theorem Client.receiveAll_append (fd : ℕ) (outputs more : List Output) (client : Client) :
    client.receiveAll fd (outputs ++ more) =
      (client.receiveAll fd outputs).receiveAll fd more :=
  List.foldl_append

namespace State

/-- Apart from the outputs to the clients, what the handler does is the same for any clients. -/
def Tells (fd : ℕ) (outputs : List Output) (f : State → State) (s : State) : Prop :=
  ∀ clients, f { s with ipc := clients } =
    { f s with ipc := clients.map (Client.receiveAll fd outputs) }

section Tells
variable {fd : ℕ} {f g : State → State} {s : State} {outputs more : List Output}

theorem Tells.ipc (h : Tells fd outputs f s) :
    (f s).ipc = s.ipc.map (Client.receiveAll fd outputs) :=
  congrArg State.ipc (h s.ipc)

theorem Tells.comp (hf : Tells fd outputs f s) (hg : Tells fd more g (f s)) :
    Tells fd (outputs ++ more) (fun x => g (f x)) s := by
  intro clients
  have hmap : (clients.map (Client.receiveAll fd outputs)).map (Client.receiveAll fd more) =
      clients.map (Client.receiveAll fd (outputs ++ more)) := by
    rw [List.map_map]
    apply List.map_congr_left
    intro client _
    exact (Client.receiveAll_append fd outputs more client).symm
  simp only [hf clients, hg (clients.map _), hmap]

/-- Two handlers that agree on the state, whatever its clients. -/
theorem Tells.congr (hg : Tells fd outputs g s)
    (h : ∀ clients, f { s with ipc := clients } = g { s with ipc := clients }) :
    Tells fd outputs f s := by
  intro clients
  have hs : f s = g s := h s.ipc
  rw [h, hg, hs]

/-- A handler that leaves the clients alone. -/
theorem Tells.nothing (h : ∀ clients, f { s with ipc := clients } = { f s with ipc := clients }) :
    Tells fd [] f s := by
  intro clients
  rw [h]
  exact congrArg (fun ipc => { f s with ipc := ipc }) (List.map_id' clients).symm

theorem tells_emit (fd : ℕ) (msg : EventMsg) (s : State) :
    Tells fd [.emit msg] (fun x => { x with ipc := ipcEvent msg x.ipc }) s := by
  intro clients
  simp only [ipcEvent_eq_map]
  rfl

/-- A change to the record of the client that the request is from. -/
theorem tells_onClient {f : Client → Client} {output : Output} (s : State)
    (h : ∀ client, client.receive fd output = if client.fd = fd then f client else client) :
    Tells fd [output] (fun x => x.onClient fd f) s := by
  intro clients
  have hreceive : Client.receiveAll fd [output] =
      fun client => if client.fd = fd then f client else client := funext h
  rw [hreceive]
  rfl

theorem tells_reply (fd : ℕ) (msg : Message) (s : State) :
    Tells fd [.reply msg] (fun x => x.onClient fd (Client.ipcCtWriteMsg msg)) s :=
  tells_onClient s fun _ => rfl

theorem tells_error (fd : ℕ) (desc : Bytes) (s : State) :
    Tells fd [.reply (.error (desc.take 255))] (fun x => x.sendError fd desc) s :=
  tells_reply fd _ s

theorem tells_success (fd : ℕ) (s : State) :
    Tells fd [.reply (.success none)] (fun x => x.sendSuccess fd) s :=
  tells_reply fd _ s

/-- An event that is emitted only in some cases. -/
theorem tells_emit_if (fd : ℕ) (c : Prop) [Decidable c] (msg : EventMsg) (s : State) :
    Tells fd (if c then [.emit msg] else [])
      (fun x => if c then { x with ipc := ipcEvent msg x.ipc } else x) s := by
  by_cases hc : c
  · simpa only [if_pos hc] using tells_emit fd msg s
  · simpa only [if_neg hc] using Tells.nothing fun _ => rfl

end Tells

/-! ## The helpers -/

/-- `set` tells that the old entry is not current anymore, and that the new one is. -/
def setOutputs (old new : ℤ) : List Output :=
  (if old > 0 then [.emit (.entryState old false)] else []) ++
    if new > 0 then [.emit (.entryState new true)] else []

theorem tells_set (fd : ℕ) (sql : Sql) (ignore : Option SelectionName) (id : ℤ) (s : State) :
    Tells fd (setOutputs s.id id) (fun x => x.set sql ignore id) s := by
  have hfirst := tells_emit_if fd (s.id > 0) (.entryState s.id false) s
  have hmiddle : ∀ x : State, Tells fd []
      (fun x =>
        let x := { x with id := id }
        let x := if id = -1 then { x with cleared := true } else x
        let x := if id > 0 then
          { x with db := (databaseSaveSetting (sql .saveSetting 0) id x.db).2 } else x
        x.waylandSet sql ignore) x := by
    intro x
    apply Tells.nothing
    intro clients
    by_cases hcleared : id = -1
    · by_cases hpositive : id > 0
      · simp only [if_pos hcleared, if_pos hpositive]
        rfl
      · simp only [if_pos hcleared, if_neg hpositive]
        rfl
    · by_cases hpositive : id > 0
      · simp only [if_neg hcleared, if_pos hpositive]
        rfl
      · simp only [if_neg hcleared, if_neg hpositive]
        rfl
  have hlast := fun x => tells_emit_if fd (id > 0) (.entryState id true) x
  have hall := (hfirst.comp (hmiddle _)).comp (hlast _)
  rw [List.append_nil] at hall
  exact hall.congr fun _ => rfl

theorem tells_update (fd : ℕ) (a : Ambient) (id : ℤ) (pinned : Option Bool) (s : State) :
    ∃ msgs : List EventMsg, Tells fd (msgs.map .emit) (fun x => (x.update a id pinned).2) s ∧
      ∀ clients, (({ s with ipc := clients } : State).update a id pinned).1 =
        (s.update a id pinned).1 := by
  rcases hcall : databaseUpdateEntry (a.sql .updateEntry 0) a.now id pinned s.db with ⟨_ | t, db⟩
  · refine ⟨[], ?_, ?_⟩
    · apply Tells.nothing
      intro clients
      simp only [update, hcall]
    · intro clients
      simp only [update, hcall]
  · refine ⟨[.entryUpdate id (some t) pinned], ?_, ?_⟩
    · have hdb : Tells fd [] (fun x => { x with db := db }) s := Tells.nothing fun _ => rfl
      apply Tells.congr (hdb.comp (tells_emit fd (.entryUpdate id (some t) pinned) _))
      intro clients
      simp only [update, hcall]
      rfl
    · intro clients
      simp only [update, hcall]

/-! ## The requests -/

/-- The numbers of requests that the request asks to be held, if it is granted. -/
def heldBy : Request → List ℤ
  | .holdRequests (some n) => if n > uint32Max then [] else [n]
  | _ => []

/-- The sum of numbers of requests. -/
def total : List ℤ → ℤ
  | [] => 0
  | n :: ns => n + total ns

theorem total_append (ns ms : List ℤ) : total (ns ++ ms) = total ns + total ms := by
  induction ns with
  | nil => exact (Int.zero_add _).symm
  | cons n ns ih => rw [List.cons_append, total, ih, total, Int.add_assoc]

/-- One reply, and these numbers of requests to hold. -/
def Answers (held : List ℤ) (outputs : List Output) : Prop :=
  ∃ msg : Message, msg.isEvent = false ∧ outputs.filterMap Output.reply? = [msg] ∧
    outputs.filterMap Output.hold? = held

theorem answers_reply {msg : Message} (hmsg : msg.isEvent = false) : Answers [] [.reply msg] :=
  ⟨msg, hmsg, rfl, rfl⟩

/-- Events before the answer and after it do not count. -/
theorem Answers.append {held : List ℤ} {outputs more : List Output} (h : Answers held outputs)
    (hmore : more.filterMap Output.reply? = [] ∧ more.filterMap Output.hold? = []) :
    Answers held (more ++ outputs) ∧ Answers held (outputs ++ more) := by
  obtain ⟨msg, hmsg, hreply, hhold⟩ := h
  constructor
  · refine ⟨msg, hmsg, ?_, ?_⟩
    · rw [List.filterMap_append, hmore.1, hreply, List.nil_append]
    · rw [List.filterMap_append, hmore.2, hhold, List.nil_append]
  · refine ⟨msg, hmsg, ?_, ?_⟩
    · rw [List.filterMap_append, hmore.1, hreply, List.append_nil]
    · rw [List.filterMap_append, hmore.2, hhold, List.append_nil]

theorem emit_silent (msgs : List EventMsg) :
    (msgs.map Output.emit).filterMap Output.reply? = [] ∧
      (msgs.map Output.emit).filterMap Output.hold? = [] := by
  constructor
  · rw [List.filterMap_map, List.filterMap_eq_nil_iff]
    exact fun _ _ => rfl
  · rw [List.filterMap_map, List.filterMap_eq_nil_iff]
    exact fun _ _ => rfl

theorem setOutputs_eq (old new : ℤ) :
    ∃ msgs : List EventMsg, setOutputs old new = msgs.map .emit := by
  refine ⟨(if old > 0 then [.entryState old false] else []) ++
    if new > 0 then [.entryState new true] else [], ?_⟩
  rw [setOutputs, List.map_append]
  congr 1
  · split <;> rfl
  · split <;> rfl

/-- A request tells the clients one reply and some events. -/
def Replies (a : Ambient) (fd : ℕ) (req : Request) (s : State) : Prop :=
  ∃ outputs, Tells fd outputs (fun x => x.requestCallback a fd req) s ∧
    Answers (heldBy req) outputs

section Requests
variable {a : Ambient} {fd : ℕ} {s : State}

/-- The request is answered and does nothing else. -/
theorem replies_of_reply {req : Request} (msg : Message) (hreq : heldBy req = [])
    (hmsg : msg.isEvent = false)
    (h : ∀ clients, ({ s with ipc := clients } : State).requestCallback a fd req =
      ({ s with ipc := clients } : State).onClient fd (Client.ipcCtWriteMsg msg)) :
    Replies a fd req s := by
  refine ⟨[.reply msg], (tells_reply fd msg s).congr h, ?_⟩
  rw [hreq]
  exact answers_reply hmsg

theorem replies_of_error {req : Request} (desc : Bytes) (hreq : heldBy req = [])
    (h : ∀ clients, ({ s with ipc := clients } : State).requestCallback a fd req =
      ({ s with ipc := clients } : State).sendError fd desc) : Replies a fd req s :=
  replies_of_reply (.error (desc.take 255)) hreq rfl h

theorem replies_subscribe (events : Option (List EventArg)) :
    Replies a fd (.subscribe events) s := by
  cases events with
  | none => exact replies_of_error ipcInvalidArgs rfl fun _ => rfl
  | some args =>
    cases hflags : subscribeEvents args [] with
    | error desc =>
      apply replies_of_error desc rfl
      intro clients
      simp only [requestCallback, serveSubscribe, hflags]
    | ok flags =>
      have hsubscribe : Tells fd [.subscribe flags]
          (fun x => x.onClient fd (Client.ipcClientSetEvents flags)) s :=
        tells_onClient s fun _ => rfl
      refine ⟨_, (hsubscribe.comp (tells_success fd _)).congr ?_, .success none, rfl, rfl, rfl⟩
      intro clients
      simp only [requestCallback, serveSubscribe, hflags]

theorem replies_getHistoryLength : Replies a fd .getHistoryLength s := by
  cases hsize : databaseGetHistorySize (a.sql .getHistorySize 0) s.db with
  | none =>
    apply replies_of_error ipcDbError rfl
    intro clients
    simp only [requestCallback, serveGetHistoryLength, hsize]
  | some size =>
    apply replies_of_reply (.size size) rfl rfl
    intro clients
    simp only [requestCallback, serveGetHistoryLength, hsize]
    rfl

theorem replies_getHistory (start n : Option ℤ) : Replies a fd (.getHistory start n) s := by
  cases start with
  | none => exact replies_of_error ipcInvalidArgs rfl fun _ => rfl
  | some start =>
    cases n with
    | none => exact replies_of_error ipcInvalidArgs rfl fun _ => rfl
    | some n =>
      cases hrows : databaseGetEntries (a.sql .getEntries 0) start n s.db with
      | none =>
        apply replies_of_error ipcDbError rfl
        intro clients
        simp only [requestCallback, serveGetHistory, hrows]
      | some rows =>
        apply replies_of_reply (.history ((rows.mapIdx
          (fun i e => s.getEntryCallback a.sql i e)).filterMap (fun row => row))) rfl rfl
        intro clients
        simp only [requestCallback, serveGetHistory, hrows]
        rfl

theorem replies_getData (id : Option ℤ) (mimeType : Option CString) :
    Replies a fd (.getData id mimeType) s := by
  cases id with
  | none => exact replies_of_error ipcInvalidArgs rfl fun _ => rfl
  | some id =>
    cases mimeType with
    | none => exact replies_of_error ipcInvalidArgs rfl fun _ => rfl
    | some mimeType =>
      cases hdata : databaseGetData (a.sql .getDataRowid 0) id mimeType s.db with
      | none =>
        apply replies_of_error ipcDbError rfl
        intro clients
        simp only [requestCallback, serveGetData, hdata]
      | some data =>
        cases hmemfd : memfdCreate mimeType a.memfd with
        | ok =>
          apply replies_of_reply (.success (some data)) rfl rfl
          intro clients
          simp only [requestCallback, serveGetData, hdata, hmemfd]
          rfl
        | notCreated strerror =>
          apply replies_of_error
            (ascii "Error creating file descriptor: ".toList ++ strerror) rfl
          intro clients
          simp only [requestCallback, serveGetData, hdata, hmemfd]
        | notMapped =>
          apply replies_of_error (ascii "Error mapping file descriptor".toList) rfl
          intro clients
          simp only [requestCallback, serveGetData, hdata, hmemfd]
        | notSealed =>
          apply replies_of_error (ascii "Error sealing file descriptor".toList) rfl
          intro clients
          simp only [requestCallback, serveGetData, hdata, hmemfd]

/-- The request refreshes an entry and is answered by whether that went well. -/
theorem replies_of_update {req : Request} {f : State → State} {msgs : List EventMsg} (id : ℤ)
    (pinned : Option Bool) (hreq : heldBy req = []) (hf : Tells fd (msgs.map .emit) f s)
    (h : ∀ clients, ({ s with ipc := clients } : State).requestCallback a fd req =
      let x := (f { s with ipc := clients }).update a id pinned
      if x.1 then x.2.sendSuccess fd else x.2.sendError fd ipcDbError) : Replies a fd req s := by
  obtain ⟨updates, hupdate, hok⟩ := tells_update fd a id pinned (f s)
  have hsame : ∀ clients, ((f { s with ipc := clients }).update a id pinned).1 =
      ((f s).update a id pinned).1 := by
    intro clients
    rw [hf clients, hok]
  have hsilent := emit_silent (msgs ++ updates)
  rw [List.map_append] at hsilent
  rw [Replies, hreq]
  cases hanswer : ((f s).update a id pinned).1 with
  | true =>
    refine ⟨_, ((hf.comp hupdate).comp (tells_success fd _)).congr ?_, ?_⟩
    · intro clients
      simp only [h, hsame, hanswer, if_true]
    · exact ((answers_reply rfl).append hsilent).1
  | false =>
    refine ⟨_, ((hf.comp hupdate).comp (tells_error fd ipcDbError _)).congr ?_, ?_⟩
    · intro clients
      simp only [h, hsame, hanswer, Bool.false_eq_true, if_false]
    · exact ((answers_reply rfl).append hsilent).1

theorem replies_setClipboard (id : Option ℤ) : Replies a fd (.setClipboard id) s := by
  cases id with
  | none => exact replies_of_error ipcInvalidArgs rfl fun _ => rfl
  | some id =>
    by_cases hmissing : id ≠ -1 ∧ !databaseIdExists (a.sql .idExists 0) id s.db
    · apply replies_of_error (idDoesNotExist id) rfl
      intro clients
      simp only [requestCallback, serveSetClipboard, if_pos hmissing]
    · obtain ⟨msgs, hmsgs⟩ := setOutputs_eq s.id id
      have hset := tells_set fd a.sql none id s
      rw [hmsgs] at hset
      apply replies_of_update id none rfl hset
      intro clients
      simp only [requestCallback, serveSetClipboard, if_neg hmissing]

theorem tells_entryDeleted (a : Ambient) (fd : ℕ) (id : ℤ) (s : State) :
    ∃ outputs, Tells fd outputs (fun x => x.entryDeleted a fd id) s ∧ Answers [] outputs := by
  have hreport := fun x => (tells_success fd x).comp (tells_emit fd (.entryDelete id) _)
  have hanswers : Answers [] [.reply (.success none), .emit (.entryDelete id)] :=
    ((answers_reply rfl).append (emit_silent [.entryDelete id])).2
  by_cases hcurrent : id = -1 ∨ id = s.id
  · have hreset : Tells fd [] (fun x => { x with id := -1 }) s := Tells.nothing fun _ => rfl
    have hset := hreset.comp (tells_set fd a.sql none (-1) _)
    refine ⟨_, (hset.comp (hreport _)).congr ?_, ?_⟩
    · intro clients
      simp only [entryDeleted, if_pos hcurrent]
      rfl
    · exact hanswers
  · refine ⟨_, (hreport s).congr ?_, hanswers⟩
    intro clients
    simp only [entryDeleted, if_neg hcurrent]
    rfl

/-- What is deleted is told about once it is gone from the database. -/
theorem replies_of_deletion {req : Request} (hreq : heldBy req = []) (db : Database) (id : ℤ)
    (h : ∀ clients, ({ s with ipc := clients } : State).requestCallback a fd req =
      ({ s with ipc := clients, db := db } : State).entryDeleted a fd id) :
    Replies a fd req s := by
  have hdb : Tells fd [] (fun x => { x with db := db }) s := Tells.nothing fun _ => rfl
  obtain ⟨outputs, htells, hanswers⟩ := tells_entryDeleted a fd id { s with db := db }
  refine ⟨outputs, (hdb.comp htells).congr h, ?_⟩
  rwa [hreq]

/-- The deletion failed. -/
theorem replies_of_failure {req : Request} (hreq : heldBy req = []) (db : Database)
    (h : ∀ clients, ({ s with ipc := clients } : State).requestCallback a fd req =
      ({ s with ipc := clients, db := db } : State).sendError fd ipcDbError) :
    Replies a fd req s := by
  have hdb : Tells fd [] (fun x => { x with db := db }) s := Tells.nothing fun _ => rfl
  refine ⟨_, (hdb.comp (tells_error fd ipcDbError _)).congr h, ?_⟩
  rw [hreq]
  exact answers_reply rfl

theorem replies_deleteEntry (id : Option ℤ) : Replies a fd (.deleteEntry id) s := by
  cases id with
  | none => exact replies_of_error ipcInvalidArgs rfl fun _ => rfl
  | some id =>
    by_cases hall : id = -1
    · rcases hclear : databaseClear (a.sql .clear 0) s.db with ⟨_ | _, db⟩
      · apply replies_of_failure rfl db
        intro clients
        simp only [requestCallback, serveDeleteEntry, if_pos hall, hclear]
      · apply replies_of_deletion rfl db id
        intro clients
        simp only [requestCallback, serveDeleteEntry, if_pos hall, hclear]
    · by_cases hmissing : !databaseIdExists (a.sql .idExists 0) id s.db
      · apply replies_of_error (idDoesNotExist id) rfl
        intro clients
        simp only [requestCallback, serveDeleteEntry, if_neg hall, if_pos hmissing]
      · rcases hdelete : databaseDeleteEntry (a.sql .delEntry 0) id s.db with ⟨_ | _, db⟩
        · apply replies_of_failure rfl db
          intro clients
          simp only [requestCallback, serveDeleteEntry, if_neg hall, if_neg hmissing, hdelete]
        · apply replies_of_deletion rfl db id
          intro clients
          simp only [requestCallback, serveDeleteEntry, if_neg hall, if_neg hmissing, hdelete]

theorem replies_pinEntry (id : Option ℤ) (pin : Option PinArg) :
    Replies a fd (.pinEntry id pin) s := by
  cases id with
  | none => exact replies_of_error ipcInvalidArgs rfl fun _ => rfl
  | some id =>
    cases pin with
    | none => exact replies_of_error ipcInvalidArgs rfl fun _ => rfl
    | some pin =>
      by_cases hmissing : !databaseIdExists (a.sql .idExists 0) id s.db
      · apply replies_of_error (idDoesNotExist id) rfl
        intro clients
        simp only [requestCallback, servePinEntry, if_pos hmissing]
      · have hflag : ∀ clients, ({ s with ipc := clients } : State).pinFlag a id pin =
            s.pinFlag a id pin := fun _ => rfl
        cases hpin : s.pinFlag a id pin with
        | none =>
          apply replies_of_error ipcInvalidArgs rfl
          intro clients
          simp only [requestCallback, servePinEntry, if_neg hmissing, hflag, hpin]
        | some flag =>
          have hstay : Tells fd (([] : List EventMsg).map .emit) (fun x => x) s :=
            Tells.nothing fun _ => rfl
          apply replies_of_update id (some flag) rfl hstay
          intro clients
          simp only [requestCallback, servePinEntry, if_neg hmissing, hflag, hpin]

theorem replies_holdRequests (n : Option ℤ) : Replies a fd (.holdRequests n) s := by
  cases n with
  | none => exact replies_of_error ipcInvalidArgs rfl fun _ => rfl
  | some n =>
    by_cases hmax : n > uint32Max
    · apply replies_of_error (ascii "number of requests to hold exceeds UINT32_MAX".toList)
        (by simp only [heldBy, if_pos hmax])
      intro clients
      simp only [requestCallback, serveHoldRequests, if_pos hmax]
    · have hhold : Tells fd [.hold n] (fun x => x.onClient fd (Client.ipcClientAddHold n)) s :=
        tells_onClient s fun _ => rfl
      refine ⟨_, (hhold.comp (tells_success fd _)).congr ?_, .success none, rfl, rfl, ?_⟩
      · intro clients
        simp only [requestCallback, serveHoldRequests, if_neg hmax]
      · simp only [heldBy, if_neg hmax]
        rfl

end Requests

/-- Every request is answered once, whatever fails. -/
theorem requestCallback_replies (a : Ambient) (fd : ℕ) (req : Request) (s : State) :
    Replies a fd req s := by
  cases req with
  | subscribe events => exact replies_subscribe events
  | getHistoryLength => exact replies_getHistoryLength
  | getHistory start n => exact replies_getHistory start n
  | getData id mimeType => exact replies_getData id mimeType
  | setClipboard id => exact replies_setClipboard id
  | deleteEntry id => exact replies_deleteEntry id
  | pinEntry id pin => exact replies_pinEntry id pin
  | getCurrent => exact replies_of_reply (.current s.id) rfl rfl fun _ => rfl
  | holdRequests n => exact replies_holdRequests n
  | invalid => exact replies_of_error ipcInvalidArgs rfl fun _ => rfl

end State

end Swayclip
