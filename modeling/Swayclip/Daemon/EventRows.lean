import Swayclip.Daemon.Committed
import Swayclip.Daemon.CurrentEntry
import Swayclip.Daemon.Tracking

/-! # The rows that events name

Each call of an `ipc_event_` function is listed with what the tables hold at that moment. A
client that reacts to an event at once finds the entry that the event names, if the entry is a
row by then.
-/

namespace Swayclip
open Library.Runs Tables

/-- An event, with the tables at the moment at which it is emitted. -/
structure Emission where
  msg : EventMsg
  tables : Tables

/-- Unless it tells about a deletion, the event names a row. -/
def Emission.NamesRow (x : Emission) : Prop :=
  match x.msg with
  | .entryAdd id | .entryUpdate id _ _ | .entryMove id _ _ | .entryState id _ =>
    x.tables.idExists id = true
  | .entryDelete _ => True

instance (x : Emission) : Decidable x.NamesRow := by
  unfold Emission.NamesRow
  split <;> infer_instance

namespace State

/-! ## The calls -/

/-- The events of `set`. -/
def setEmissions (sql : Sql) (id : ℤ) (s : State) : List Emission :=
  let db := if id > 0 then (databaseSaveSetting (sql .saveSetting 0) id s.db).2 else s.db
  (if s.id > 0 then [⟨.entryState s.id false, s.db.tables⟩] else []) ++
    if id > 0 then [⟨.entryState id true, db.tables⟩] else []

/-- The event of `update`. -/
def updateEmissions (a : Ambient) (id : ℤ) (pinned : Option Bool) (s : State) : List Emission :=
  match databaseUpdateEntry (a.sql .updateEntry 0) a.now id pinned s.db with
  | (none, _) => []
  | (some t, db) => [⟨.entryUpdate id (some t) pinned, db.tables⟩]

/-- The events that follow a deletion that succeeded. -/
def deletedEmissions (a : Ambient) (id : ℤ) (s : State) : List Emission :=
  if id = -1 ∨ id = s.id then
    { s with id := -1 }.setEmissions a.sql (-1) ++
      [⟨.entryDelete id, ({ s with id := -1 }.set a.sql none (-1)).db.tables⟩]
  else [⟨.entryDelete id, s.db.tables⟩]

/-- The events of `request_callback`. -/
def requestEmissions (a : Ambient) (req : Request) (s : State) : List Emission :=
  match req with
  | .setClipboard (some id) =>
    if id ≠ -1 ∧ !databaseIdExists (a.sql .idExists 0) id s.db then []
    else s.setEmissions a.sql id ++ (s.set a.sql none id).updateEmissions a id none
  | .deleteEntry (some id) =>
    if id = -1 then
      match databaseClear (a.sql .clear 0) s.db with
      | (false, _) => []
      | (true, db) => { s with db := db }.deletedEmissions a id
    else if !databaseIdExists (a.sql .idExists 0) id s.db then []
    else
      match databaseDeleteEntry (a.sql .delEntry 0) id s.db with
      | (false, _) => []
      | (true, db) => { s with db := db }.deletedEmissions a id
  | .pinEntry (some id) (some pin) =>
    if !databaseIdExists (a.sql .idExists 0) id s.db then []
    else
      match s.pinFlag a id pin with
      | none => []
      | some flag => s.updateEmissions a id (some flag)
  | _ => []

/-- The events of requests that are served one after the other. -/
def batchEmissions (ambient : ℕ → Ambient) (fd : ℕ) : ℕ → List Request → State → List Emission
  | _, [], _ => []
  | i, req :: reqs, s =>
    s.requestEmissions (ambient i) req ++
      batchEmissions ambient fd (i + 1) reqs (s.handleRequest (ambient i) fd req)

/-- The events of `trim_callback`. -/
def trimEmissions (a : Ambient) (s : State) : List Emission :=
  let (ids, db) := databaseTrim (a.sql .trim 0) s.config.maxEntries s.db
  ids.map fun id => ⟨.entryDelete id, db.tables⟩

/-- The event of the update of a moved entry. -/
def movedEmissions (a : Ambient) (o : Outcome) (db : Database) (s : State) : List Emission :=
  let db := if o.ret then (databaseDoTransaction (a.sql .commitTransaction 0) .commit db).2
    else (databaseDoTransaction (a.sql .rollbackTransaction 0) .rollback db).2
  if o.moved then
    match databaseUpdateSortIndex (a.sql .updateSortIndex 0) o.id db with
    | (true, db) => { s with db := db }.updateEmissions a o.id none
    | (false, _) => []
  else []

/-- The events of `wsignal_selection` from the label `exit` to the trailing trim. -/
def storeEmissions (a : Ambient) (written : ℕ → Option Bytes) (mimeTypes : List CString)
    (s : State) : List Emission :=
  match selectionTransaction s.config a written mimeTypes s.db with
  | (o, db) =>
    s.movedEmissions a o db ++
      match s.finishTransaction a o db with
      | (true, s) =>
        if o.moved then ⟨.entryMove o.id o.oldPos 0, s.db.tables⟩ :: s.setEmissions a.sql o.id
        else
          let s := s.saveAttributes a.sql o
          ⟨.entryAdd o.id, s.db.tables⟩ :: s.setEmissions a.sql o.id
      | (false, _) => []

/-- The events of `wsignal_selection`. -/
def selectionEmissions (a : Ambient) (name : SelectionName) (written : ℕ → Option Bytes)
    (mimeTypes : List CString) (transient : Bool) (s : State) : List Emission :=
  if mimeTypes.length = 0 then []
  else
    let s := s.clearTransient
    if transient then
      let s := { s with id := -1 }
      match receiveAll s.config written 0 mimeTypes with
      | none => []
      | some data => { s with transient := data }.setEmissions a.sql 0
    else
      match databaseDoTransaction (a.sql .beginImmediate 0) .immediate s.db with
      | (false, _) => []
      | (true, db) =>
        { s with db := db }.storeEmissions a written mimeTypes ++
          ({ s with db := db }.storeSelection a name written mimeTypes).trimEmissions a

/-- The events that are emitted in a step. -/
def emissions (s : State) (i : Input) : List Emission :=
  match i.event with
  | .message fd (some req) =>
    match s.findClient fd with
    | none => []
    | some client =>
      (s.onClient fd (holdBack client req)).batchEmissions i.ambient fd 0 (batch client req)
  | .selection name (some written) _ =>
    match s.findSeat name.1 with
    | none => []
    | some seat =>
      if reaches name.2 seat then
        (s.withOffer name seat).selectionEmissions (i.ambient 0) name written seat.mimeTypes
          seat.transient
      else []
  | _ => []

/-! ## They are what the clients are told -/

section Told
variable {β : Type*} (F : Fold β) (fd : ℕ) (a : Ambient) (s : State)

theorem informs_setEmissions (sql : Sql) (ignore : Option SelectionName) (id : ℤ) (s : State) :
    Informs F fd ((s.setEmissions sql id).map Emission.msg) s (s.set sql ignore id) := by
  have hevents : (s.setEmissions sql id).map Emission.msg = stateEvents s.id id := by
    by_cases hold : s.id > 0 <;> by_cases hnew : id > 0 <;>
      simp [setEmissions, stateEvents, hold, hnew]
  rw [hevents]
  exact informs_set F fd sql ignore id s

theorem informs_updateEmissions (id : ℤ) (pinned : Option Bool) :
    Informs F fd ((s.updateEmissions a id pinned).map Emission.msg) s
      (s.update a id pinned).2 := by
  rcases hupdate : databaseUpdateEntry (a.sql .updateEntry 0) a.now id pinned s.db with ⟨t, db⟩
  simp only [updateEmissions, update, hupdate]
  cases t with
  | none => exact .of_ipc rfl
  | some t => exact (informs_emit F fd (.entryUpdate id (some t) pinned) s).congr rfl

theorem informs_deletedEmissions (fd' : ℕ) (id : ℤ) :
    Informs F fd ((s.deletedEmissions a id).map Emission.msg) s (s.entryDeleted a fd' id) := by
  have hevents : (s.deletedEmissions a id).map Emission.msg = [.entryDelete id] := by
    by_cases hcurrent : id = -1 ∨ id = s.id <;> simp [deletedEmissions, setEmissions, hcurrent]
  rw [hevents]
  exact informs_entryDeleted F fd a fd' id s

/-- The update that ends a request, and its reply. -/
theorem informs_updated (fd' : ℕ) (id : ℤ) (pinned : Option Bool) :
    Informs F fd ((s.updateEmissions a id pinned).map Emission.msg) s
      (if (s.update a id pinned).1 then (s.update a id pinned).2.sendSuccess fd'
      else (s.update a id pinned).2.sendError fd' ipcDbError) := by
  have hreplied : ∀ x : State, Informs F fd [] x (if (s.update a id pinned).1 then
      x.sendSuccess fd' else x.sendError fd' ipcDbError) := by
    intro x
    split <;> exact informs_reply F fd fd' rfl x
  have htold := (informs_updateEmissions F fd a s id pinned).trans (hreplied _)
  rwa [List.append_nil] at htold

theorem informs_serveSetClipboard (fd' : ℕ) (id : Option ℤ) :
    Informs F fd ((s.requestEmissions a (.setClipboard id)).map Emission.msg) s
      (s.serveSetClipboard a fd' id) := by
  cases id with
  | none => exact informs_reply F fd fd' rfl s
  | some id =>
    simp only [serveSetClipboard, requestEmissions]
    split
    · exact informs_reply F fd fd' rfl s
    · rw [List.map_append]
      exact (informs_setEmissions F fd a.sql none id s).trans (informs_updated F fd a _ fd' id none)

theorem informs_serveDeleteEntry (fd' : ℕ) (id : Option ℤ) :
    Informs F fd ((s.requestEmissions a (.deleteEntry id)).map Emission.msg) s
      (s.serveDeleteEntry a fd' id) := by
  cases id with
  | none => exact informs_reply F fd fd' rfl s
  | some id =>
    simp only [serveDeleteEntry, requestEmissions]
    split
    · rcases databaseClear (a.sql .clear 0) s.db with ⟨_ | _, db⟩
      · exact (informs_reply F fd fd' rfl { s with db := db }).congr_left rfl
      · exact (informs_deletedEmissions F fd a { s with db := db } fd' id).congr_left rfl
    · split
      · exact informs_reply F fd fd' rfl s
      · rcases databaseDeleteEntry (a.sql .delEntry 0) id s.db with ⟨_ | _, db⟩
        · exact (informs_reply F fd fd' rfl { s with db := db }).congr_left rfl
        · exact (informs_deletedEmissions F fd a { s with db := db } fd' id).congr_left rfl

theorem informs_servePinEntry (fd' : ℕ) (id : Option ℤ) (pin : Option PinArg) :
    Informs F fd ((s.requestEmissions a (.pinEntry id pin)).map Emission.msg) s
      (s.servePinEntry a fd' id pin) := by
  cases id with
  | none => exact informs_reply F fd fd' rfl s
  | some id =>
    cases pin with
    | none => exact informs_reply F fd fd' rfl s
    | some pin =>
      simp only [servePinEntry, requestEmissions]
      split
      · exact informs_reply F fd fd' rfl s
      · cases s.pinFlag a id pin with
        | none => exact informs_reply F fd fd' rfl s
        | some flag => exact informs_updated F fd a s fd' id (some flag)

theorem informs_requestEmissions (fd' : ℕ) (req : Request)
    (hkeeps : fd' = fd → KeepsFlags F.flags req) :
    Informs F fd ((s.requestEmissions a req).map Emission.msg) s
      (s.requestCallback a fd' req) := by
  have hreply : ∀ msg : Message, msg.isEvent = false → Informs F fd [] s
      (s.onClient fd' (Client.ipcCtWriteMsg msg)) := fun _ hmsg => informs_reply F fd fd' hmsg s
  have hset : ∀ f : Client → Client, (∀ c, (f c).fd = c.fd) → (∀ c, c.fd = fd' →
      s.findClient fd = some c → c.Heard F [] (f c)) →
      Informs F fd [] s ((s.onClient fd' f).sendSuccess fd') := fun f hfd hf =>
    (informs_onClient fd' hfd hf).trans (informs_reply F fd fd' rfl _)
  cases req with
  | subscribe events =>
    cases events with
    | none => exact hreply _ rfl
    | some args =>
      simp only [requestCallback, serveSubscribe]
      split
      · exact hreply _ rfl
      · rename_i flags hflags
        exact hset _ (fun _ => rfl) fun c hc hfound => .of_sent (fun h => h)
          (fun _ => hkeeps (hc.symm.trans (findClient_fd hfound)) args flags rfl hflags) rfl
  | getHistoryLength =>
    simp only [requestCallback, serveGetHistoryLength]
    split <;> exact hreply _ rfl
  | getHistory start n =>
    simp only [requestCallback, serveGetHistory]
    split
    · split <;> exact hreply _ rfl
    · exact hreply _ rfl
  | getData id mimeType =>
    simp only [requestCallback, serveGetData]
    split
    · split
      · exact hreply _ rfl
      · split <;> exact hreply _ rfl
    · exact hreply _ rfl
  | setClipboard id => exact informs_serveSetClipboard F fd a s fd' id
  | deleteEntry id => exact informs_serveDeleteEntry F fd a s fd' id
  | pinEntry id pin => exact informs_servePinEntry F fd a s fd' id pin
  | getCurrent => exact hreply _ rfl
  | holdRequests n =>
    simp only [requestCallback, serveHoldRequests]
    split
    · exact hreply _ rfl
    · split
      · exact hreply _ rfl
      · exact hset _ (fun _ => rfl) fun _ _ _ => .of_sent (fun h => h) (fun h => h) rfl
  | invalid => exact hreply _ rfl

theorem informs_trimEmissions :
    Informs F fd ((s.trimEmissions a).map Emission.msg) s (s.trim a) := by
  rcases htrim : databaseTrim (a.sql .trim 0) s.config.maxEntries s.db with ⟨ids, db⟩
  simp only [trimEmissions, State.trim, htrim, List.map_map]
  exact (informs_deleteAll F fd ids s).congr rfl

theorem informs_finishTransaction (o : Outcome) (db : Database) :
    Informs F fd ((s.movedEmissions a o db).map Emission.msg) s (s.finishTransaction a o db).2 := by
  simp only [movedEmissions, finishTransaction]
  generalize (if o.ret then (databaseDoTransaction (a.sql .commitTransaction 0) .commit db).2
    else (databaseDoTransaction (a.sql .rollbackTransaction 0) .rollback db).2) = ended
  cases o.moved with
  | false => exact .of_ipc rfl
  | true =>
    rcases databaseUpdateSortIndex (a.sql .updateSortIndex 0) o.id ended with ⟨_ | _, db⟩
    · exact .of_ipc rfl
    · exact (informs_updateEmissions F fd a { s with db := db } o.id none).congr_left rfl

theorem informs_storeEmissions (name : SelectionName) (written : ℕ → Option Bytes)
    (mimeTypes : List CString) :
    Informs F fd ((s.storeEmissions a written mimeTypes).map Emission.msg) s
      (s.storeSelection a name written mimeTypes) := by
  rcases htransaction : selectionTransaction s.config a written mimeTypes s.db with ⟨o, db⟩
  have hfinish := informs_finishTransaction F fd a s o db
  simp only [storeEmissions, storeSelection, htransaction, List.map_append]
  rcases hfinished : s.finishTransaction a o db with ⟨_ | _, s'⟩
  · rw [hfinished] at hfinish
    rw [List.map_nil, List.append_nil]
    exact hfinish.congr (by dsimp only; split <;> rfl)
  · rw [hfinished] at hfinish
    refine hfinish.trans ?_
    cases o.moved with
    | true =>
      exact (informs_emit F fd (.entryMove o.id o.oldPos 0) s').trans
        (informs_setEmissions F fd a.sql (some name) o.id _)
    | false =>
      have hsaved : (s'.saveAttributes a.sql o).ipc = s'.ipc := by
        rw [saveAttributes]
        split <;> rfl
      exact ((informs_emit F fd (.entryAdd o.id) (s'.saveAttributes a.sql o)).congr_left
        hsaved).trans (informs_setEmissions F fd a.sql (some name) o.id _)

theorem informs_selectionEmissions (name : SelectionName) (written : ℕ → Option Bytes)
    (mimeTypes : List CString) (transient : Bool) :
    Informs F fd ((s.selectionEmissions a name written mimeTypes transient).map Emission.msg) s
      (s.wsignalSelection a name written mimeTypes transient) := by
  simp only [selectionEmissions, wsignalSelection]
  split
  · exact .of_ipc rfl
  · cases transient with
    | true =>
      simp only [if_true, storeTransient]
      cases receiveAll s.clearTransient.config written 0 mimeTypes with
      | none => exact .of_ipc rfl
      | some data =>
        exact (informs_setEmissions F fd a.sql (some name) 0
          { s.clearTransient with id := -1, transient := data }).congr_left rfl
    | false =>
      rcases databaseDoTransaction (a.sql .beginImmediate 0) .immediate s.clearTransient.db
        with ⟨_ | _, db⟩
      · exact .of_ipc rfl
      · rw [if_neg Bool.false_ne_true, if_neg Bool.false_ne_true, List.map_append]
        exact ((informs_storeEmissions F fd a { s.clearTransient with db := db } name written
          mimeTypes).congr_left rfl).trans (informs_trimEmissions F fd a _)

end Told

section Told
variable {β : Type*} {F : Fold β} {fd k : ℕ} {known b : β} {s : State}

/-- The clients have no say in what is emitted. -/
theorem requestEmissions_onClient (a : Ambient) (req : Request) (fd : ℕ) (f : Client → Client)
    (s : State) : (s.onClient fd f).requestEmissions a req = s.requestEmissions a req := by
  cases req with
  | setClipboard id =>
    cases id with
    | none => rfl
    | some id =>
      simp only [requestEmissions, updateEmissions, set_db]
      rfl
  | deleteEntry id =>
    cases id with
    | none => rfl
    | some id =>
      simp only [requestEmissions, deletedEmissions, set_db]
      rfl
  | pinEntry id pin => cases id <;> cases pin <;> rfl
  | _ => rfl

/-- While its own request is served the client's events wait; they are sent when it is not. -/
theorem Tracks.request {a : Ambient} {req : Request} (hkeeps : KeepsFlags F.flags req)
    (hs : s.Tracks F fd known k b) :
    (s.handleRequest a fd req).Tracks F fd known k
      (F.after b ((s.requestEmissions a req).map Emission.msg)) := by
  let opened : State := s.onClient fd (fun c => { c with handlingReq := true })
  have hopened : opened.Tracks F fd known k b :=
    hs.onClient fd (fun _ => rfl) (fun _ => rfl) fun _ => rfl
  have hserved := hopened.informed (readyFor_served fd s)
    (informs_requestEmissions F fd a opened fd req fun _ => hkeeps)
  rw [requestEmissions_onClient] at hserved
  rw [State.handleRequest]
  exact hserved.onClient (f := fun c => { c with handlingReq := false }) fd (fun _ => rfl)
    (fun _ => rfl) fun _ => rfl

theorem Tracks.requests (ambient : ℕ → Ambient) {reqs : List Request}
    (hkeeps : ∀ req ∈ reqs, KeepsFlags F.flags req) (n : ℕ) (hs : s.Tracks F fd known k b) :
    (s.handleRequests ambient fd n reqs).Tracks F fd known k
      (F.after b ((s.batchEmissions ambient fd n reqs).map Emission.msg)) := by
  induction reqs generalizing n b s with
  | nil => exact hs
  | cons req reqs ih =>
    rw [batchEmissions, List.map_append, F.after_append]
    exact ih (fun r hr => hkeeps r (List.mem_cons_of_mem _ hr)) (n + 1)
      (hs.request (hkeeps req List.mem_cons_self))

/-- Nothing that happens to another client is told. -/
theorem informs_onOther (F : Fold β) {fd fd' : ℕ} (hfd : fd' ≠ fd) {f : Client → Client}
    (hf : ∀ c, (f c).fd = c.fd) (s : State) : Informs F fd [] s (s.onClient fd' f) :=
  informs_onClient fd' hf fun _ hc hfound => absurd (hc.symm.trans (findClient_fd hfound)) hfd

theorem informs_batchEmissions (F : Fold β) {fd fd' : ℕ} (hfd : fd' ≠ fd) (ambient : ℕ → Ambient)
    (reqs : List Request) (n : ℕ) (s : State) :
    Informs F fd ((s.batchEmissions ambient fd' n reqs).map Emission.msg) s
      (s.handleRequests ambient fd' n reqs) := by
  induction reqs generalizing n s with
  | nil => exact .of_ipc rfl
  | cons req reqs ih =>
    have hflag : ∀ (flag : Bool) (x : State),
        Informs F fd [] x (x.onClient fd' (fun c => { c with handlingReq := flag })) :=
      fun flag x => informs_onOther (f := fun c => { c with handlingReq := flag }) F hfd
        (fun _ => rfl) x
    have hserved := informs_requestEmissions F fd (ambient n)
      (s.onClient fd' (fun c => { c with handlingReq := true })) fd' req fun h => absurd h hfd
    have hrequest := ((hflag true s).trans hserved).trans (hflag false _)
    rw [requestEmissions_onClient, List.nil_append, List.append_nil] at hrequest
    rw [batchEmissions, List.map_append]
    exact hrequest.trans (ih (n + 1) _)

/-- A message is served while the client stays connected and subscribed. -/
theorem Tracks.message {ambient : ℕ → Ambient} {client : Client} {req : Request}
    (hready : s.ReadyFor fd) (hs : s.Tracks F fd known k b)
    (hkeeps : client.fd = fd → ∀ r ∈ batch client req, KeepsFlags F.flags r) :
    (s.messageCallback ambient client (some req)).Tracks F fd known k
      (F.after b (((s.onClient client.fd (holdBack client req)).batchEmissions ambient client.fd 0
        (batch client req)).map Emission.msg)) := by
  rw [messageCallback_eq]
  by_cases hfd : client.fd = fd
  · subst hfd
    have hheld := hs.onClient client.fd (holdBack_fd client req)
      (fun c => by rw [holdBack]; split <;> rfl) fun c => by rw [holdBack]; split <;> rfl
    have hserved := hheld.requests ambient (hkeeps rfl) 0
    have hreleased := hserved.onClient client.fd (release_fd client)
      (fun c => by rw [release]; split <;> rfl) fun c => by rw [release]; split <;> rfl
    exact hreleased.onClient (f := Client.ipcClientFlushEvents) client.fd (fun _ => rfl)
      (fun _ => rfl) Client.sent_flush
  · have hheld := informs_onOther F hfd (holdBack_fd client req) s
    have hserved := hheld.trans (informs_batchEmissions F hfd ambient (batch client req) 0 _)
    have hreleased := hserved.trans (informs_onOther F hfd (release_fd client) _)
    have hflushed := hreleased.trans (informs_onOther (f := Client.ipcClientFlushEvents) F hfd
      (fun _ => rfl) _)
    rw [List.append_nil, List.append_nil, List.nil_append] at hflushed
    exact hs.informed hready hflushed

/-- A step in which nothing is served or received tells nothing. -/
theorem Tracks.quiet {i : Input} (hs : s.Tracks F fd known k b)
    (hi : StaysSubscribed F.flags fd s i)
    (hmessage : ∀ fd msg, i.event = .message fd msg → s.findClient fd = none)
    (hevent : NotDelivered s i.event) : (step s i).Tracks F fd known k b := by
  have htransition := step_transition s i
  generalize step s i = s' at htransition ⊢
  cases htransition with
  | quiet _ _ hclients =>
    cases hclients fd with
    | same hclient => exact hs.congr hclient
    | connected _ hold =>
      obtain ⟨c, hc, -⟩ := hs
      exact absurd (hc.symm.trans hold) (Option.some_ne_none c)
    | gone hgone => exact absurd hgone hi.connected
  | restarted hrestarted => exact absurd hrestarted (hi.undisturbed.session _)
  | delivered hselection hdelivers => exact absurd hdelivers (hevent _ _ _ _ hselection)
  | served hserved hclient =>
    exact absurd (hclient.symm.trans (hmessage _ _ hserved)) (Option.some_ne_none _)

theorem emissions_undelivered {name : SelectionName} {offer : Option (ℕ → Option Bytes)}
    (h : ¬ ∃ seat written, offer = some written ∧ Delivers s name seat) (timerOk : Bool)
    (ambient : ℕ → Ambient) : s.emissions ⟨.selection name offer timerOk, ambient⟩ = [] := by
  cases offer with
  | none => rfl
  | some written =>
    cases hseat : s.findSeat name.1 with
    | none => simp only [emissions, hseat]
    | some seat =>
      have hreaches : ¬ reaches name.2 seat = true := fun hreaches =>
        h ⟨seat, written, rfl, delivers_iff.mpr ⟨hseat, hreaches⟩⟩
      simp only [emissions, hseat, if_neg hreaches]

/-- A client that stays connected and subscribed is sent the events of the step. -/
theorem step_tracks_emissions {i : Input} (h : Reachable s)
    (hi : StaysSubscribed F.flags fd s i) (hs : s.Tracks F fd known k b) :
    (step s i).Tracks F fd known k (F.after b ((s.emissions i).map Emission.msg)) := by
  have hready : s.ReadyFor fd := readyFor_of_reachable h
  obtain ⟨event, ambient⟩ := i
  cases event with
  | message fd' msg =>
    cases hclient : s.findClient fd' with
    | none =>
      have hnone : s.emissions ⟨.message fd' msg, ambient⟩ = [] := by
        cases msg <;> simp [emissions, hclient]
      rw [hnone]
      exact hs.quiet hi (fun _ _ he => (Event.message.inj he).1 ▸ hclient) (notDelivered rfl)
    | some client =>
      obtain rfl := findClient_fd hclient
      have hstep : step s ⟨.message client.fd msg, ambient⟩ =
          s.messageCallback ambient client msg := by
        simp only [step, handle, hclient]
      rw [hstep]
      cases msg with
      | none =>
        simp only [emissions, List.map_nil, Fold.after_nil, messageCallback]
        exact hs.onClient (f := Client.ipcClientFlushEvents) client.fd (fun _ => rfl)
          (fun _ => rfl) Client.sent_flush
      | some req =>
        simp only [emissions, hclient]
        exact hs.message hready fun hfd => hi.keeps client req (by rw [hfd]) (hfd ▸ hclient)
  | selection name offer timerOk =>
    by_cases hdelivers : ∃ seat written, offer = some written ∧ Delivers s name seat
    · obtain ⟨seat, written, rfl, hdelivers⟩ := hdelivers
      obtain ⟨hfound, hreaches⟩ := delivers_iff.mp hdelivers
      have htold := informs_selectionEmissions F fd (ambient 0) (s.withOffer name seat) name
        written seat.mimeTypes seat.transient
      rw [step_delivers hdelivers]
      simp only [emissions, hfound, if_pos hreaches]
      exact (hs.informed hready (htold.congr_left rfl)).congr rfl
    · have hnot : NotDelivered s (.selection name offer timerOk) := by
        rintro name' written' timerOk' seat' he hdelivers'
        obtain ⟨rfl, hoffer, -⟩ := Event.selection.inj he
        exact hdelivers ⟨seat', written', hoffer, hdelivers'⟩
      rw [emissions_undelivered hdelivers]
      exact hs.quiet hi (fun _ _ he => by cases he) hnot
  | _ => exact hs.quiet hi (fun _ _ he => by cases he) (notDelivered rfl)

end Told

/-! ## When they name rows -/

/-- The current entry, if there is one, is a row. -/
def CurrentIsRow (s : State) : Prop := s.id > 0 → s.db.tables.idExists s.id = true

theorem setEmissions_iff (sql : Sql) (id : ℤ) (s : State) :
    (∀ x ∈ s.setEmissions sql id, x.NamesRow) ↔
      s.CurrentIsRow ∧ (id > 0 → s.db.tables.idExists id = true) := by
  have hsaved : ∀ ok i, (databaseSaveSetting ok id s.db).2.tables.idExists i =
      s.db.tables.idExists i := by
    intro ok i
    rw [idExists, (databaseSaveSetting_sameRows ok id s.db).entries, idExists]
  by_cases hold : s.id > 0 <;> by_cases hnew : id > 0 <;>
    simp [setEmissions, CurrentIsRow, Emission.NamesRow, hold, hnew, hsaved]

theorem updateEmissions_iff {a : Ambient} (hsql : a.sql = allOk) (id : ℤ) (pinned : Option Bool)
    (s : State) : (∀ x ∈ s.updateEmissions a id pinned, x.NamesRow) ↔
      s.db.tables.idExists id = true := by
  have hrows : (s.db.tables.updateEntry a.now pinned id).idExists id = s.db.tables.idExists id :=
    idExists_of_entries (f := fun e => if e.id = id then
      { e with updateTime := a.now, pinned := pinned.getD e.pinned } else e) rfl
      (fun e => by split <;> rfl) id
  simp [updateEmissions, databaseUpdateEntry, hsql, Emission.NamesRow, hrows]

/-- A deletion tells nothing that names a row. -/
theorem deletedEmissions_names (a : Ambient) (id : ℤ) (s : State) :
    ∀ x ∈ s.deletedEmissions a id, x.NamesRow := by
  by_cases hcurrent : id = -1 ∨ id = s.id <;>
    simp [deletedEmissions, setEmissions, Emission.NamesRow, hcurrent]

/-- To set the clipboard to an entry names it and the current one; to clear it names no entry. -/
def RequestNames (req : Request) (s : State) : Prop :=
  match req with
  | .setClipboard (some id) => id ≠ -1 ∧ (s.db.tables.idExists id = true → s.CurrentIsRow)
  | _ => True

theorem requestEmissions_iff {a : Ambient} (hsql : a.sql = allOk) {s : State}
    (hwf : s.db.tables.WF) (req : Request) :
    (∀ x ∈ s.requestEmissions a req, x.NamesRow) ↔ s.RequestNames req := by
  cases req with
  | setClipboard id =>
    cases id with
    | none => simp [requestEmissions, RequestNames]
    | some id =>
      have hset : (s.set a.sql none id).db.tables.idExists id = s.db.tables.idExists id := by
        rw [idExists, (set_sameRows ..).entries, idExists]
      simp only [requestEmissions, RequestNames, databaseIdExists, hsql, allOk_apply, Bool.true_and]
      rw [hsql] at hset
      by_cases hclear : id = -1
      · subst hclear
        have hnone : s.db.tables.idExists (-1) = false := by
          rw [Bool.eq_false_iff]
          intro hexists
          obtain ⟨e, he, hid⟩ := idExists_iff.mp hexists
          have := hwf.idPos e he
          omega
        rw [if_neg (by simp), List.forall_mem_append, updateEmissions_iff hsql, hset, hnone]
        simp
      · by_cases hexists : s.db.tables.idExists id = true
        · rw [if_neg (by simp [hexists]), List.forall_mem_append, setEmissions_iff,
            updateEmissions_iff hsql, hset]
          simp [hclear, hexists]
        · rw [if_pos (by simp [hclear, hexists])]
          simp [hclear, hexists]
  | deleteEntry id =>
    cases id with
    | none => simp [requestEmissions, RequestNames]
    | some id =>
      refine iff_of_true ?_ trivial
      simp only [requestEmissions]
      split
      · split
        · simp
        · exact deletedEmissions_names a id _
      · split
        · simp
        · split
          · simp
          · exact deletedEmissions_names a id _
  | pinEntry id pin =>
    refine iff_of_true ?_ trivial
    simp only [requestEmissions]
    split
    · rename_i hreq
      cases hreq
    · rename_i hreq
      cases hreq
    · rename_i i p hreq
      obtain ⟨rfl, rfl⟩ := Request.pinEntry.inj hreq
      split
      · simp
      · rename_i hexists
        split
        · simp
        · rw [updateEmissions_iff hsql]
          simpa [databaseIdExists, hsql] using hexists
    · simp
  | _ => simp [requestEmissions, RequestNames]

/-- Each request of a batch names rows in the state that it finds. -/
def BatchNames (ambient : ℕ → Ambient) (fd : ℕ) : ℕ → List Request → State → Prop
  | _, [], _ => True
  | i, req :: reqs, s =>
    s.RequestNames req ∧ BatchNames ambient fd (i + 1) reqs (s.handleRequest (ambient i) fd req)

theorem batchEmissions_iff {ambient : ℕ → Ambient} (hsql : ∀ n, (ambient n).sql = allOk) (fd : ℕ)
    (reqs : List Request) (i : ℕ) {s : State} (hwf : s.db.WF) :
    (∀ x ∈ s.batchEmissions ambient fd i reqs, x.NamesRow) ↔ s.BatchNames ambient fd i reqs := by
  induction reqs generalizing i s with
  | nil => simp [batchEmissions, BatchNames]
  | cons req reqs ih =>
    have hnext : (s.handleRequest (ambient i) fd req).db.WF :=
      handleRequests_wf hwf (fun _ => ambient i) fd 0 [req]
    rw [batchEmissions, List.forall_mem_append, requestEmissions_iff (hsql i) hwf.tables,
      ih (i + 1) hnext, BatchNames]

theorem trimEmissions_names (a : Ambient) (s : State) :
    ∀ x ∈ s.trimEmissions a, x.NamesRow := by
  intro x hx
  obtain ⟨id, -, rfl⟩ := List.mem_map.mp hx
  trivial

/-! ## No id of the future -/

/-- The current entry and the one that is saved as the last have been entries. -/
structure Issued (s : State) : Prop where
  current : s.id ≤ s.db.tables.seq
  last : ∀ id ∈ s.db.tables.lastEntry, id ≤ s.db.tables.seq

theorem set_lastEntry (sql : Sql) (ignore : Option SelectionName) (id : ℤ) (s : State) :
    ∀ i ∈ (s.set sql ignore id).db.tables.lastEntry, i = id ∨ i ∈ s.db.tables.lastEntry := by
  have hsaved : ∀ ok, ∀ i ∈ (databaseSaveSetting ok id s.db).2.tables.lastEntry,
      i = id ∨ i ∈ s.db.tables.lastEntry := by
    intro ok i hi
    cases ok with
    | true => exact Or.inl (Option.some.inj hi).symm
    | false => exact Or.inr hi
  intro i hi
  rw [set_db] at hi
  split at hi
  · exact hsaved _ i hi
  · exact Or.inr hi

theorem set_issued {sql : Sql} {ignore : Option SelectionName} {id : ℤ} {s : State}
    (hid : id ≤ s.db.tables.seq) (hlast : ∀ i ∈ s.db.tables.lastEntry, i ≤ s.db.tables.seq) :
    (s.set sql ignore id).Issued := by
  constructor
  · rw [set_id, (set_sameRows ..).seq]
    exact hid
  · intro i hi
    rw [(set_sameRows ..).seq]
    rcases set_lastEntry sql ignore id s i hi with rfl | hi
    · exact hid
    · exact hlast i hi

/-- The tables are changed in other ways. -/
theorem Issued.congr {s s' : State} (h : s.Issued) (hid : s'.id = s.id)
    (hseq : s'.db.tables.seq = s.db.tables.seq)
    (hlast : s'.db.tables.lastEntry = s.db.tables.lastEntry) : s'.Issued := by
  constructor
  · rw [hid, hseq]
    exact h.current
  · rw [hlast, hseq]
    exact h.last

theorem Issued.reset {s : State} (h : s.Issued) (hwf : s.db.tables.WF) :
    ({ s with id := -1 } : State).Issued := by
  have := hwf.seqNonneg
  exact ⟨by change (-1 : ℤ) ≤ s.db.tables.seq; omega, h.last⟩

theorem Issued.withoutEntries {s : State} (h : s.Issued) (ids : List ℤ) :
    (s.withoutEntries ids).Issued :=
  h.congr rfl (by rw [State.withoutEntries, delEntries_eq])
    (by rw [State.withoutEntries, delEntries_eq])

theorem Issued.entryDeleted {s : State} (h : s.Issued) (hwf : s.db.tables.WF) (a : Ambient)
    (fd : ℕ) (id : ℤ) : (s.entryDeleted a fd id).Issued := by
  have hcurrent : (if id = -1 ∨ id = s.id then { s with id := -1 }.set a.sql none (-1)
      else s).Issued := by
    split
    · exact set_issued (s := { s with id := -1 }) (h.reset hwf).current h.last
    · exact h
  exact hcurrent.congr rfl rfl rfl

theorem Issued.update {a : Ambient} (hsql : a.sql = allOk) {s : State} (h : s.Issued) (id : ℤ)
    (pinned : Option Bool) : (s.update a id pinned).2.Issued := by
  rw [update_eq hsql]
  exact h.congr rfl rfl rfl

theorem served_issued {a : Ambient} (hsql : a.sql = allOk) {fd : ℕ} {s s' : State} {req : Request}
    (hwf : s.db.tables.WF) (h : s.Issued) (hserved : Served a fd s req s') : s'.Issued := by
  cases hserved with
  | replied | subscribed | held => exact h.congr rfl rfl rfl
  | @madeCurrent id hid =>
    have hissued : id ≤ s.db.tables.seq := by
      rcases hid with rfl | hexists
      · exact (h.reset hwf).current
      · obtain ⟨e, he, rfl⟩ := idExists_iff.mp hexists
        exact hwf.idSeq e he
    exact ((set_issued hissued h.last).update hsql id none).congr rfl rfl rfl
  | deleted => exact (h.withoutEntries _).entryDeleted (delEntries_wf hwf _) a fd _
  | cleared => exact (h.withoutEntries _).entryDeleted (delEntries_wf hwf _) a fd _
  | pinned flag => exact (h.update hsql _ (some flag)).congr rfl rfl rfl

theorem messageCallback_issued {ambient : ℕ → Ambient} (hsql : ∀ n, (ambient n).sql = allOk)
    (client : Client) (msg : Option Request) {s : State} (hwf : s.db.WF) (h : s.Issued) :
    (s.messageCallback ambient client msg).Issued :=
  (messageCallback_requests (P := fun x => x.db.WF ∧ x.Issued) ambient client
    (fun _ _ _ hx => ⟨hx.1, hx.2.congr rfl rfl rfl⟩)
    (fun n req s hx => ⟨requestCallback_wf hx.1 (ambient n) client.fd req,
      served_issued (hsql n) hx.1.tables hx.2 (requestCallback_served (hsql n) client.fd req s)⟩)
    msg ⟨hwf, h⟩).2

theorem copied_issued {a : Ambient} {name : SelectionName} {received : Option Content}
    {s s' : State} (hwf : s.db.tables.WF) (h : s.Issued) (hcopied : Copied a name received s s') :
    s'.Issued := by
  cases hcopied with
  | failed => exact h.reset hwf
  | ignored => exact h
  | @moved content id pos hreceived hverdict =>
    obtain ⟨e, he, -, rfl, -⟩ := verdict_move hverdict
    exact set_issued (s := { s with
      db := ⟨s.db.tables.moveEntry a.now e.id, none⟩
      ipc := ipcEventEntryMove e.id pos 0 (ipcEventEntryUpdate e.id (some a.now) none s.ipc) })
      (hwf.idSeq e he) h.last
  | @added content t f hreceived hverdict hadd =>
    have hseq : t.seq = s.db.tables.nextId := seq_addEntry hadd
    obtain ⟨t₁, -, hs, ht₁⟩ := addEntry_eq s.db.tables a.now content
    obtain rfl := Option.some.inj (ht₁.symm.trans hadd)
    have hlast : ∀ i ∈ s.db.tables.lastEntry, i ≤ s.db.tables.nextId := fun i hi =>
      (h.last i hi).trans (seq_lt_nextId _).le
    refine set_issued (s := { s with
      db := ⟨mapAttributes s.db.tables.nextId f _, none⟩
      ipc := ipcEventEntryAdd s.db.tables.nextId s.ipc }) hseq.ge ?_
    intro i hi
    change i ∈ t₁.lastEntry at hi
    rw [hs.lastEntry] at hi
    exact (hlast i hi).trans hseq.ge

theorem trim_issued {a : Ambient} {s : State} (h : s.Issued) : (s.trim a).Issued := by
  cases hok : a.sql .trim 0 with
  | false =>
    exact h.congr rfl (by simp [trim, databaseTrim, hok]) (by simp [trim, databaseTrim, hok])
  | true =>
    refine h.congr rfl ?_ ?_
    · simp [trim, databaseTrim, hok, trim_tables, delEntries_eq]
    · simp [trim, databaseTrim, hok, trim_tables, delEntries_eq]

theorem handled_issued {a : Ambient} {name : SelectionName} {written : ℕ → Option Bytes}
    {mimeTypes : List CString} {transient : Bool} {s s' : State} (hwf : s.db.tables.WF)
    (h : s.Issued) (hhandled : Handled a name written mimeTypes transient s s') : s'.Issued := by
  cases hhandled with
  | empty => exact h
  | lost => exact Issued.reset (s := s.clearTransient) (h.congr rfl rfl rfl) hwf
  | @kept _ _ content =>
    exact set_issued (s := { s with id := -1, transient := content }) hwf.seqNonneg h.last
  | stored _ _ hcopied =>
    exact trim_issued (copied_issued (s := s.clearTransient) hwf (h.congr rfl rfl rfl) hcopied)

/-- What is true between two steps. -/
structure KeepsIssued (s : State) : Prop where
  reachable : Reachable s
  saved : s.db.saved = none
  live : s.Issued
  disk : ∀ id ∈ s.disk.lastEntry, id ≤ s.disk.seq

theorem startup_issued {disk : Tables} (hwf : disk.WF) (h : ∀ id ∈ disk.lastEntry, id ≤ disk.seq)
    (config : Config) (a : Ambient) : (startup config a disk).Issued := by
  have hloaded : ∀ id ∈ (if config.persist then disk else Tables.empty).lastEntry,
      id ≤ (if config.persist then disk else Tables.empty).seq := by
    split
    · exact h
    · exact fun id h => by cases h
  have hnonneg : 0 ≤ (if config.persist then disk else Tables.empty).seq := by
    split
    · exact hwf.seqNonneg
    · exact le_rfl
  have hdb : (startup config a disk).db.tables.seq =
        (if config.persist then disk else Tables.empty).seq ∧
      (startup config a disk).db.tables.lastEntry =
        (if config.persist then disk else Tables.empty).lastEntry := by
    cases hok : a.sql .trim 0 <;>
      simp [startup, databaseInit, databaseTrim, hok, trim_tables, delEntries_eq]
  constructor
  · rw [hdb.1]
    have hread : (startup config a disk).id = -1 ∨
        (startup config a disk).id ∈ (startup config a disk).db.tables.lastEntry := by
      simp only [startup, databaseGetSetting]
      split
      · split
        · cases hlast : (databaseInit (a.sql .trim 0) config.maxEntries
            (if config.persist then disk else Tables.empty)).tables.lastEntry with
          | none => exact Or.inl rfl
          | some id => exact Or.inr rfl
        · exact Or.inl rfl
      · exact Or.inl rfl
    rcases hread with hid | hid
    · omega
    · rw [hdb.2] at hid
      exact hloaded _ hid
  · rw [hdb.1, hdb.2]
    exact hloaded

theorem step_keepsIssued {s : State} {i : Input} (hsql : ∀ n, (i.ambient n).sql = allOk)
    (h : s.KeepsIssued) : (step s i).KeepsIssued := by
  have hwf := h.reachable.wf
  have hfile : ∀ id ∈ s.file.lastEntry, id ≤ s.file.seq := by
    refine file_of (P := fun t => ∀ id ∈ t.lastEntry, id ≤ t.seq) ?_ h.disk
    rw [committed_of_saved h.saved]
    exact h.live.last
  refine ⟨h.reachable.step i, step_saved hsql hwf.db.tables h.saved, ?_, ?_⟩
  · have htransition := step_transition s i
    generalize step s i = s' at htransition ⊢
    cases htransition with
    | quiet hevent hcore =>
      exact h.live.congr hcore.id (by rw [hcore.db]) (by rw [hcore.db])
    | @restarted config hevent =>
      exact startup_issued (file_wf hwf) hfile config (i.ambient 0)
    | @delivered name seat written timerOk hevent hdelivers =>
      have hissued : (s.withOffer name seat).Issued := h.live.congr rfl rfl rfl
      have hhandled := wsignalSelection_handled (s := s.withOffer name seat) (hsql 0) h.saved
        hwf.db.tables name written seat.mimeTypes seat.transient
      exact (handled_issued (s := s.withOffer name seat) hwf.db.tables hissued hhandled).congr rfl
        rfl rfl
    | @served fd msg client hevent hclient =>
      exact messageCallback_issued hsql client msg hwf.db h.live
  · exact step_disk_of (P := fun t => ∀ id ∈ t.lastEntry, id ≤ t.seq) i hfile h.disk

/-! ## Selection events -/

theorem idExists_addEntry {t t' : Tables} {now : ℤ} {content : Content}
    (hadd : t.addEntry now content = some t') (id : ℤ) :
    t'.idExists id = (t.idExists id || decide (id = t.nextId)) := by
  have hids : t'.entries.map Entry.id = t.entries.map Entry.id ++ [t.nextId] := by
    rw [entries_addEntry hadd, List.map_append, List.map_map]
    congr 1
    refine List.map_congr_left fun e _ => ?_
    rw [Function.comp_apply]
    split <;> rfl
  rw [Bool.eq_iff_iff, idExists_iff_mem, hids, List.mem_append, ← idExists_iff_mem]
  simp

/-- An event that adds an entry names it and the current one. -/
theorem added_names {sql : Sql} {s : State} {t' : Tables} {now : ℤ} {content : Content}
    (hissued : s.Issued) (hadd : s.db.tables.addEntry now content = some t')
    (f : Attributes → Attributes) (saved : Option Tables) :
    (∀ x ∈ ⟨.entryAdd s.db.tables.nextId, mapAttributes s.db.tables.nextId f t'⟩ ::
        ({ s with db := ⟨mapAttributes s.db.tables.nextId f t', saved⟩ } : State).setEmissions sql
          s.db.tables.nextId, x.NamesRow) ↔ s.CurrentIsRow := by
  have hrows : ∀ id, (mapAttributes s.db.tables.nextId f t').idExists id =
      (s.db.tables.idExists id || decide (id = s.db.tables.nextId)) := by
    intro id
    rw [← idExists_addEntry hadd]
    exact idExists_of_entries rfl (fun e => by split <;> rfl) id
  have hold : s.id ≠ s.db.tables.nextId := by
    have hcurrent := hissued.current
    have hnext := seq_lt_nextId s.db.tables
    omega
  rw [List.forall_mem_cons, setEmissions_iff]
  simp [Emission.NamesRow, CurrentIsRow, hrows, hold]

/-- An event that moves an entry names it and the current one. -/
theorem moved_names {sql : Sql} {s : State} {id : ℤ} (hid : s.db.tables.idExists id = true)
    (now pos : ℤ) (saved : Option Tables) :
    (∀ x ∈ [⟨.entryUpdate id (some now) none, s.db.tables.moveEntry now id⟩,
        ⟨.entryMove id pos 0, s.db.tables.moveEntry now id⟩] ++
        ({ s with db := ⟨s.db.tables.moveEntry now id, saved⟩ } : State).setEmissions sql id,
      x.NamesRow) ↔ s.CurrentIsRow := by
  have hrows : ∀ i, (s.db.tables.moveEntry now id).idExists i = s.db.tables.idExists i := by
    intro i
    rw [moveEntry, updateEntry, idExists_of_entries rfl (fun e => by split <;> rfl),
      updateSortIndex, idExists_of_entries rfl (fun e => by split <;> rfl)]
  rw [List.forall_mem_append, setEmissions_iff]
  simp [Emission.NamesRow, CurrentIsRow, hrows, hid]

/-- An event that is stored or moves an entry names that entry and the current one. -/
theorem storeEmissions_iff {a : Ambient} {s : State} {t : Tables} (hsql : a.sql = allOk)
    (hdb : s.db = ⟨t, some t⟩) (ht : t.WF) (hissued : s.Issued) (written : ℕ → Option Bytes)
    (mimeTypes : List CString) :
    (∀ x ∈ s.storeEmissions a written mimeTypes, x.NamesRow) ↔
      ∀ content : Content, receiveAll s.config written 0 mimeTypes = some content →
        verdict s.config.dedup content.hash t ≠ .ignore → s.CurrentIsRow := by
  obtain ⟨o, db, he, hsaved, hend, hok⟩ := selectionTransaction_end hsql hdb ht written mimeTypes
  obtain rfl : t = s.db.tables := by rw [hdb]
  have hcommit : a.sql .commitTransaction 0 = true := by rw [hsql]; rfl
  have hrollback : a.sql .rollbackTransaction 0 = true := by rw [hsql]; rfl
  have hnone : o.ret = false → o.moved = false → s.storeEmissions a written mimeTypes = [] := by
    intro hret hmoved
    simp only [storeEmissions, he, movedEmissions, hmoved,
      finishTransaction_rollback hrollback hsaved hret hmoved]
    rfl
  cases hend with
  | @added content hreceived hadd hret hmoved hignore hid =>
    have hemissions : s.storeEmissions a written mimeTypes =
        ⟨.entryAdd o.id, mapAttributes o.id (savedAttributes a.sql o) db.tables⟩ ::
          ({ s with db := ⟨mapAttributes o.id (savedAttributes a.sql o) db.tables, none⟩ } :
            State).setEmissions a.sql o.id := by
      simp only [storeEmissions, he, movedEmissions, hmoved,
        finishTransaction_commit hcommit hsaved hret hmoved, saveAttributes_eq]
      rfl
    rw [hemissions, hid, added_names hissued hadd, hreceived]
    constructor
    · exact fun h _ _ _ => h
    · intro h
      refine h content rfl fun hverdict => ?_
      rw [(hok content hreceived).2.2 hverdict] at hignore
      cases hignore
  | @moved content hreceived hverdict hret hmoved hignore =>
    have hemissions : s.storeEmissions a written mimeTypes =
        [⟨.entryUpdate o.id (some a.now) none, s.db.tables.moveEntry a.now o.id⟩,
          ⟨.entryMove o.id o.oldPos 0, s.db.tables.moveEntry a.now o.id⟩] ++
        ({ s with db := ⟨s.db.tables.moveEntry a.now o.id, none⟩ } : State).setEmissions a.sql
          o.id := by
      simp only [storeEmissions, he, movedEmissions, hmoved,
        finishTransaction_move hrollback hsaved hret hmoved]
      simp [hsql, hret, databaseDoTransaction, hsaved, databaseUpdateSortIndex, Database.exec,
        updateEmissions, databaseUpdateEntry, moveEntry, setEmissions]
    obtain ⟨e, hexists, -, hid, -⟩ := verdict_move hverdict
    rw [hemissions, moved_names (idExists_iff.mpr ⟨e, hexists, hid⟩), hreceived]
    constructor
    · exact fun h _ _ _ => h
    · intro h
      refine h content rfl fun hsame => ?_
      rw [hverdict] at hsame
      cases hsame
  | @ignored content hreceived hverdict hret hmoved hignore =>
    rw [hnone hret hmoved, hreceived]
    refine iff_of_true (List.forall_mem_nil _) fun other hother hnot => ?_
    obtain rfl := Option.some.inj hother
    exact absurd hverdict hnot
  | failed hret hmoved hignore =>
    rw [hnone hret hmoved]
    refine iff_of_true (List.forall_mem_nil _) fun content hcontent hnot => ?_
    obtain ⟨hadd, hmove, -⟩ := hok content hcontent
    cases hverdict : verdict s.config.dedup (Content.hash content) s.db.tables with
    | add =>
      rw [hadd hverdict] at hret
      cases hret
    | move id pos =>
      rw [hmove ⟨id, pos, hverdict⟩] at hmoved
      cases hmoved
    | ignore => exact absurd hverdict hnot

theorem selectionEmissions_iff {a : Ambient} {s : State} (hsql : a.sql = allOk)
    (hsaved : s.db.saved = none) (hwf : s.db.tables.WF) (hissued : s.Issued) (name : SelectionName)
    (written : ℕ → Option Bytes) (mimeTypes : List CString) (transient : Bool) :
    (∀ x ∈ s.selectionEmissions a name written mimeTypes transient, x.NamesRow) ↔
      (mimeTypes ≠ [] → transient = false →
        ∀ content : Content, receiveAll s.config written 0 mimeTypes = some content →
          verdict s.config.dedup content.hash s.db.tables ≠ .ignore → s.CurrentIsRow) := by
  by_cases hmime : mimeTypes = []
  · simp [selectionEmissions, hmime]
  have hlength : mimeTypes.length ≠ 0 := fun h => hmime (List.length_eq_zero_iff.mp h)
  cases transient with
  | true =>
    refine iff_of_true ?_ fun _ h => by cases h
    simp only [selectionEmissions, if_neg hlength, if_true]
    split <;> simp [setEmissions]
  | false =>
    have hbegin : databaseDoTransaction (a.sql .beginImmediate 0) .immediate s.clearTransient.db =
        (true, ⟨s.db.tables, some s.db.tables⟩) := by
      rw [hsql]
      simp [databaseDoTransaction, clearTransient, hsaved]
    have hemissions : s.selectionEmissions a name written mimeTypes false =
        ({ s.clearTransient with db := ⟨s.db.tables, some s.db.tables⟩ } : State).storeEmissions a
          written mimeTypes ++ (({ s.clearTransient with db := ⟨s.db.tables, some s.db.tables⟩ } :
            State).storeSelection a name written mimeTypes).trimEmissions a := by
      simp only [selectionEmissions, if_neg hlength, hbegin]
      rfl
    have hbegun : ({ s.clearTransient with db := ⟨s.db.tables, some s.db.tables⟩ } :
        State).Issued := hissued.congr rfl rfl rfl
    have hstore := storeEmissions_iff hsql rfl hwf hbegun written mimeTypes
    rw [hemissions, List.forall_mem_append, and_iff_left (trimEmissions_names a _)]
    exact ⟨fun h _ _ => hstore.mp h, fun h => hstore.mpr (h hmime rfl)⟩

/-! ## Along a run -/

/-- What keeps the events of a step from naming something else than a row: no served request clears
the clipboard, and whenever an entry takes over, the current entry is a row. -/
def EmitsRows (s : State) (i : Input) : Prop :=
  match i.event with
  | .message fd (some req) => ∀ client, s.findClient fd = some client →
    (s.onClient fd (holdBack client req)).BatchNames i.ambient fd 0 (batch client req)
  | .selection name (some written) _ =>
    ∀ seat, Delivers s name seat → seat.mimeTypes ≠ [] → seat.transient = false →
      ∀ content : Content, receiveAll s.config written 0 seat.mimeTypes = some content →
        verdict s.config.dedup content.hash s.db.tables ≠ .ignore → s.CurrentIsRow
  | _ => True

theorem emissions_message_iff {s : State} {ambient : ℕ → Ambient}
    (hsql : ∀ n, (ambient n).sql = allOk) (hwf : s.db.WF) (fd : ℕ) (req : Request) :
    (∀ x ∈ s.emissions ⟨.message fd (some req), ambient⟩, x.NamesRow) ↔
      s.EmitsRows ⟨.message fd (some req), ambient⟩ := by
  cases hclient : s.findClient fd with
  | none => simp [emissions, EmitsRows, hclient]
  | some client =>
    have hbatch := batchEmissions_iff (s := s.onClient fd (holdBack client req)) hsql fd
      (batch client req) 0 hwf
    simp only [emissions, EmitsRows, hclient, Option.some.injEq, forall_eq', hbatch]

theorem emissions_selection_iff {s : State} {ambient : ℕ → Ambient}
    (hsql : ∀ n, (ambient n).sql = allOk) (h : s.KeepsIssued) (name : SelectionName)
    (written : ℕ → Option Bytes) (timerOk : Bool) :
    (∀ x ∈ s.emissions ⟨.selection name (some written) timerOk, ambient⟩, x.NamesRow) ↔
      s.EmitsRows ⟨.selection name (some written) timerOk, ambient⟩ := by
  simp only [emissions, EmitsRows, delivers_iff]
  cases hseat : s.findSeat name.1 with
  | none => simp
  | some seat =>
    by_cases hreaches : reaches name.2 seat = true
    · have hissued : (s.withOffer name seat).Issued := h.live.congr rfl rfl rfl
      have hselection := selectionEmissions_iff (s := s.withOffer name seat) (hsql 0) h.saved
        h.reachable.wf.db.tables hissued name written seat.mimeTypes seat.transient
      simp only [if_pos hreaches]
      rw [hselection]
      constructor
      · rintro hnames _ ⟨hfound, -⟩
        obtain rfl := Option.some.inj hfound
        exact hnames
      · exact fun hnames => hnames seat ⟨rfl, hreaches⟩
    · simp [hreaches]

theorem emissions_iff {s : State} {i : Input} (hsql : ∀ n, (i.ambient n).sql = allOk)
    (h : s.KeepsIssued) : (∀ x ∈ s.emissions i, x.NamesRow) ↔ s.EmitsRows i := by
  obtain ⟨event, ambient⟩ := i
  cases event with
  | message fd msg =>
    cases msg with
    | none => simp [emissions, EmitsRows]
    | some req => exact emissions_message_iff hsql h.reachable.wf.db fd req
  | selection name offer timerOk =>
    cases offer with
    | none => simp [emissions, EmitsRows]
    | some written => exact emissions_selection_iff hsql h name written timerOk
  | _ => simp [emissions, EmitsRows]

/-- The events of all steps. -/
def runEmissions : State → List Input → List Emission
  | _, [] => []
  | s, i :: inputs => s.emissions i ++ runEmissions (step s i) inputs

/-- While the condition is met, a client that stays subscribed is told of all these events, and each
names a row when it is emitted. -/
theorem told_name_rows {β : Type*} {F : Fold β} {fd k : ℕ} {known b : β} {s : State}
    {inputs : List Input} (h : s.KeepsIssued)
    (hstays : Meets step (StaysSubscribed F.flags fd) s inputs)
    (hrows : Meets step EmitsRows s inputs) (hs : s.Tracks F fd known k b) :
    (run step s inputs).Tracks F fd known k
        (F.after b ((s.runEmissions inputs).map Emission.msg)) ∧
      ∀ x ∈ s.runEmissions inputs, x.NamesRow := by
  induction inputs generalizing s b with
  | nil => exact ⟨hs, fun x hx => absurd hx List.not_mem_nil⟩
  | cons i inputs ih =>
    have hsql := hstays.1.undisturbed.sql
    obtain ⟨htold, hnames⟩ := ih (step_keepsIssued hsql h) hstays.2 hrows.2
      (step_tracks_emissions h.reachable hstays.1 hs)
    constructor
    · rwa [runEmissions, List.map_append, F.after_append]
    · rw [runEmissions, List.forall_mem_append]
      exact ⟨(emissions_iff hsql h).mpr hrows.1, hnames⟩

end State

/-- In every run without a failing call, the events name rows exactly as long as no request clears
the clipboard and no entry takes over from one that is not a row. -/
theorem emissions_name_rows_iff (config : Config) (a : Ambient) {inputs : List Input}
    (hinputs : ∀ i ∈ inputs, ∀ n, (i.ambient n).sql = allOk) :
    Meets step (fun s i => ∀ x ∈ s.emissions i, x.NamesRow) (boot config a) inputs ↔
      Meets step State.EmitsRows (boot config a) inputs := by
  apply Meets.iff_of_invariant (I := State.KeepsIssued)
  · exact fun s i hi hs => State.emissions_iff (hinputs i hi) hs
  · exact fun s i hi hs _ => State.step_keepsIssued (hinputs i hi) hs
  · exact ⟨.boot config a, State.startup_saved config a Tables.empty,
      State.startup_issued empty_wf (fun id h => by cases h) config a, (fun id h => by cases h)⟩

/-- A text is copied and chosen again. -/
theorem chosenText_emitsRows :
    Meets step State.EmitsRows (boot configInit (.quiet 0))
      ([.quiet (.addSeat 0 seat0), .quiet (.connect 0)] ++
        copy (0, .regular) [(textPlain, [65])] ++
          [.quiet (.message 0 (some (.setClipboard (some 1))))]) := by
  refine (emissions_name_rows_iff configInit (.quiet 0) ?_).mp (by decide +kernel)
  intro i hi
  rw [List.append_assoc, List.mem_append, List.mem_append, List.mem_singleton] at hi
  rcases hi with hi | hi | rfl
  · rcases List.mem_pair.mp hi with rfl | rfl <;> exact fun _ => rfl
  · exact (undisturbed_copy _ _ i hi).sql
  · exact fun _ => rfl

/-- The client that clears the clipboard is told of an update of entry -1. -/
theorem clearedClipboard_names_no_row :
    let s := run step (boot configInit (.quiet 0))
      [.quiet (.connect 0), .quiet (.message 0 (some (.subscribe (some [.flag .entryUpdate]))))]
    let i : Input := .quiet (.message 0 (some (.setClipboard (some (-1)))))
    (∃ x ∈ s.emissions i, ¬ x.NamesRow) ∧
      ((step s i).findClient 0).map (fun c => c.enqueued) =
        some [.entryUpdate (-1) (some 0) none] := by
  decide +kernel

/-- An entry that is trimmed while it is current is told not to be current anymore. -/
example :
    let s := run step (boot configKeepOne (.quiet 0)) (pinnedFirst ++ copiedUnpinned)
    (s.emissions (.quiet (.message 0 (some (.setClipboard (some 2)))))).map
        (fun x => (x.msg, decide x.NamesRow)) =
      [(.entryState 1 false, false), (.entryState 2 true, true),
        (.entryUpdate 2 (some 0) none, true)] := by
  decide +kernel

end Swayclip
