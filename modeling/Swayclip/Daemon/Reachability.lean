import Swayclip.Daemon.Outcomes
import Swayclip.Library.Runs

/-! # The constraints of the schema in every reachable state

Whatever fails, no handler leaves tables behind that SQLite would not accept: neither the
ones in view, nor those a rollback returns to, nor the file.
-/

namespace Swayclip
open Tables

/-- Every table that the daemon or its next session may see is well formed. -/
structure State.WF (s : State) : Prop where
  db : s.db.WF
  disk : s.disk.WF

/-! ## Selection events -/

theorem deduplicate_wf {db : Database} (h : db.WF) (dedup : Dedup) (sql : Sql) (hash : Digest)
    (o : Outcome) : (deduplicate dedup sql hash o db).2.WF := by
  unfold deduplicate
  split
  · exact databaseSetEntryHash_wf h _ _ _
  · split
    · exact h
    · dsimp only
      split
      · exact h
      · split
        · exact databaseSetEntryHash_wf h _ _ _
        · exact h
  · split
    · exact h
    · dsimp only
      split <;> exact h

theorem receiveMimeTypes_wf {r : Receiving} (h : r.db.WF) (config : Config) (sql : Sql)
    (written : ℕ → Option Bytes) (id : ℤ) (i : ℕ) (mimeTypes : List CString) :
    (receiveMimeTypes config sql written id i mimeTypes r).2.db.WF := by
  induction mimeTypes generalizing i r with
  | nil => exact h
  | cons m mimeTypes ih =>
    rw [receiveMimeTypes]
    split
    · exact h
    · dsimp only
      split
      · exact databaseNewMimeType_wf h _ _ _ _ _ _
      · refine ih ?_ _
        rw [Receiving.noteContent_db]
        exact databaseNewMimeType_wf h _ _ _ _ _ _

theorem selectionTransaction_wf {db : Database} (h : db.WF) (config : Config) (a : Ambient)
    (written : ℕ → Option Bytes) (mimeTypes : List CString) :
    (selectionTransaction config a written mimeTypes db).2.WF := by
  have hnew := databaseNewEntry_wf h (a.sql .newEntry 0) a.now
  unfold selectionTransaction
  split
  · rename_i db' he
    rwa [he] at hnew
  · rename_i id db' he
    rw [he] at hnew
    have hloop := receiveMimeTypes_wf (r := ⟨db', Sha256.init, .unknown, none⟩) hnew config a.sql
      written id 0 mimeTypes
    split
    · rename_i r hr
      rwa [hr] at hloop
    · rename_i r hr
      rw [hr] at hloop
      have hdedup := deduplicate_wf hloop config.dedup a.sql (Sha256.final r.shaCtx)
        ⟨false, false, false, id, 0, r.ctype, r.contentMime⟩
      unfold settleEntry
      dsimp only
      split
      · exact databaseSetEntryHash_wf hdedup _ _ _
      · exact hdedup

namespace State

theorem update_wf {s : State} (h : s.db.WF) (a : Ambient) (id : ℤ) (pinned : Option Bool) :
    (s.update a id pinned).2.db.WF := by
  have hcall := databaseUpdateEntry_wf h (a.sql .updateEntry 0) a.now id pinned
  unfold update
  split <;> rename_i he <;> rwa [he] at hcall

theorem trim_wf {s : State} (h : s.db.WF) (a : Ambient) : (s.trim a).db.WF :=
  databaseTrim_wf h _ _

theorem saveAttributes_wf {s : State} (h : s.db.WF) (sql : Sql) (o : Outcome) :
    (s.saveAttributes sql o).db.WF := by
  have hone := databaseSaveAttribute_wf h (sql .saveAttribute 0) o.id .contentType o.ctype.name
  unfold saveAttributes
  dsimp only
  split
  · exact hone
  · exact databaseSaveAttribute_wf hone _ _ _ _

theorem finishTransaction_wf {s : State} {db : Database} (h : db.WF) (a : Ambient) (o : Outcome) :
    (s.finishTransaction a o db).2.db.WF := by
  have hend : (if o.ret then (databaseDoTransaction (a.sql .commitTransaction 0) .commit db).2
      else (databaseDoTransaction (a.sql .rollbackTransaction 0) .rollback db).2).WF := by
    split <;> exact databaseDoTransaction_wf h _ _
  have hsort := databaseUpdateSortIndex_wf hend (a.sql .updateSortIndex 0) o.id
  unfold finishTransaction
  dsimp only
  split
  · split <;> rename_i he <;> rw [he] at hsort
    · exact update_wf hsort a o.id none
    · exact hsort
  · exact hend

theorem storeSelection_wf {s : State} (h : s.db.WF) (a : Ambient) (name : SelectionName)
    (written : ℕ → Option Bytes) (mimeTypes : List CString) :
    (s.storeSelection a name written mimeTypes).db.WF := by
  have htrans := selectionTransaction_wf h s.config a written mimeTypes
  unfold storeSelection
  split
  rename_i o db he
  rw [he] at htrans
  have hfinish := finishTransaction_wf (s := s) htrans a o
  split <;> rename_i hf <;> rw [hf] at hfinish
  · refine set_wf _ _ _ _ ?_
    split
    · exact hfinish
    · exact saveAttributes_wf hfinish _ _
  · split <;> exact hfinish

theorem wsignalSelection_wf {s : State} (h : s.db.WF) (a : Ambient) (name : SelectionName)
    (written : ℕ → Option Bytes) (mimeTypes : List CString) (transient : Bool) :
    (s.wsignalSelection a name written mimeTypes transient).db.WF := by
  have hbegin := databaseDoTransaction_wf h (a.sql .beginImmediate 0) .immediate
  unfold wsignalSelection storeTransient
  split
  · exact h
  · dsimp only
    split
    · split
      · exact h
      · exact set_wf _ _ _ _ h
    · split
      · exact h
      · rename_i db he
        rw [clearTransient] at he
        rw [he] at hbegin
        exact trim_wf (storeSelection_wf hbegin a name written mimeTypes) a

/-! ## Requests -/

/-- One thing that a request does to the state. -/
inductive Effect (a : Ambient) : State → State → Prop
  | client (fd : ℕ) (f : Client → Client) (s : State) : Effect a s (s.onClient fd f)
  | emit (msg : EventMsg) (s : State) : Effect a s { s with ipc := ipcEvent msg s.ipc }
  | set (ignore : Option SelectionName) (id : ℤ) (s : State) : Effect a s (s.set a.sql ignore id)
  | update (id : ℤ) (pinned : Option Bool) (s : State) : Effect a s (s.update a id pinned).2
  | reset (s : State) : Effect a s { s with id := -1 }
  | delete (id : ℤ) (s : State) :
      Effect a s { s with db := (databaseDeleteEntry (a.sql .delEntry 0) id s.db).2 }
  | clear (s : State) : Effect a s { s with db := (databaseClear (a.sql .clear 0) s.db).2 }

/-- A request does a few of them in a row. -/
abbrev Effects (a : Ambient) : State → State → Prop := Relation.ReflTransGen (Effect a)

theorem effects_client (a : Ambient) (fd : ℕ) (f : Client → Client) (s : State) :
    Effects a s (s.onClient fd f) :=
  .single (.client fd f s)

theorem entryDeleted_effects (a : Ambient) (fd : ℕ) (id : ℤ) (s : State) :
    Effects a s (s.entryDeleted a fd id) := by
  unfold entryDeleted
  dsimp only
  split
  · exact (((Relation.ReflTransGen.single (.reset s)).tail (.set none (-1) _)).tail
      (.client fd ipcClientSendSuccess _)).tail (.emit (.entryDelete id) _)
  · exact (Relation.ReflTransGen.single (.client fd ipcClientSendSuccess s)).tail
      (.emit (.entryDelete id) _)

theorem requestCallback_effects (a : Ambient) (fd : ℕ) (req : Request) (s : State) :
    Effects a s (s.requestCallback a fd req) := by
  have hreply : ∀ (f : Client → Client) (s : State), Effects a s (s.onClient fd f) :=
    effects_client a fd
  cases req with
  | subscribe events =>
    simp only [requestCallback, serveSubscribe]
    split
    · exact hreply _ s
    · split
      · exact hreply _ s
      · exact (hreply _ s).trans (hreply _ _)
  | getHistoryLength =>
    simp only [requestCallback, serveGetHistoryLength]
    split <;> exact hreply _ s
  | getHistory start n =>
    simp only [requestCallback, serveGetHistory]
    split
    · split <;> exact hreply _ s
    · exact hreply _ s
  | getData id mimeType =>
    simp only [requestCallback, serveGetData]
    split
    · split
      · exact hreply _ s
      · split <;> exact hreply _ s
    · exact hreply _ s
  | setClipboard id =>
    simp only [requestCallback, serveSetClipboard]
    split
    · exact hreply _ s
    · rename_i id
      split
      · exact hreply _ s
      · have hset := (Relation.ReflTransGen.single (Effect.set (a := a) none id s)).tail
          (.update id none _)
        split
        · exact hset.trans (hreply _ _)
        · exact hset.trans (hreply _ _)
  | deleteEntry id =>
    simp only [requestCallback, serveDeleteEntry]
    split
    · exact hreply _ s
    · rename_i id
      have hclear := Relation.ReflTransGen.single (Effect.clear (a := a) s)
      have hdel := Relation.ReflTransGen.single (Effect.delete (a := a) id s)
      split
      · split <;> rename_i he <;> rw [he] at hclear
        · exact hclear.trans (hreply _ _)
        · exact hclear.trans (entryDeleted_effects a fd id _)
      · split
        · exact hreply _ s
        · split <;> rename_i he <;> rw [he] at hdel
          · exact hdel.trans (hreply _ _)
          · exact hdel.trans (entryDeleted_effects a fd id _)
  | pinEntry id pin =>
    simp only [requestCallback, servePinEntry]
    split
    · split
      · exact hreply _ s
      · split
        · exact hreply _ s
        · rename_i id _ _ _ pin _
          have hupdate := Relation.ReflTransGen.single (Effect.update (a := a) id (some pin) s)
          split
          · exact hupdate.trans (hreply _ _)
          · exact hupdate.trans (hreply _ _)
    · exact hreply _ s
  | getCurrent => exact hreply _ s
  | holdRequests n =>
    simp only [requestCallback, serveHoldRequests]
    split
    · exact hreply _ s
    · split
      · exact hreply _ s
      · exact (hreply _ s).trans (hreply _ _)
  | invalid => exact hreply _ s

/-- What the requests of a client keep and its own fields do not matter to, held requests
keep. -/
theorem handleRequests_preserve {P : State → Prop} (ambient : ℕ → Ambient) (fd : ℕ)
    (hclient : ∀ f, (∀ c, (f c).fd = c.fd) → ∀ s, P s → P (s.onClient fd f))
    (hrequest : ∀ n req s, P s → P (s.requestCallback (ambient n) fd req)) (reqs : List Request)
    (n : ℕ) {s : State} (hs : P s) : P (s.handleRequests ambient fd n reqs) := by
  induction reqs generalizing n s with
  | nil => exact hs
  | cons req reqs ih =>
    apply ih (n + 1)
    apply hclient (fun c => { c with handlingReq := false }) fun _ => rfl
    apply hrequest
    exact hclient (fun c => { c with handlingReq := true }) (fun _ => rfl) s hs

/-- The requests that are served when one arrives. -/
def batch (client : Client) (req : Request) : List Request :=
  if client.hold > 0 then
    if client.hold - 1 = 0 then client.holdArr ++ [req] else []
  else [req]

/-- The client while they are served. -/
def holdBack (client : Client) (req : Request) (c : Client) : Client :=
  if client.hold > 0 then
    { c with hold := client.hold - 1, holdArr := client.holdArr ++ [req] }
  else c

/-- The held requests are given up once they have been served. -/
def release (client : Client) (c : Client) : Client :=
  if client.hold > 0 ∧ client.hold - 1 = 0 then { c with holdArr := [] } else c

theorem holdBack_fd (client : Client) (req : Request) (c : Client) :
    (holdBack client req c).fd = c.fd := by
  rw [holdBack]
  split <;> rfl

theorem release_fd (client c : Client) : (release client c).fd = c.fd := by
  rw [release]
  split <;> rfl

theorem onClient_self (fd : ℕ) (s : State) : s.onClient fd (fun c => c) = s := by
  simp [onClient]

/-- A message is held back or serves a batch, and the delayed events follow the replies. -/
theorem messageCallback_eq (ambient : ℕ → Ambient) (client : Client) (req : Request) (s : State) :
    s.messageCallback ambient client (some req) =
      (((s.onClient client.fd (holdBack client req)).handleRequests ambient client.fd 0
        (batch client req)).onClient client.fd (release client)).onClient client.fd
          Client.ipcClientFlushEvents := by
  have hkept : ∀ x : State, x.onClient client.fd (fun c => c) = x := onClient_self client.fd
  rw [messageCallback]
  congr 1
  by_cases hhold : client.hold > 0
  · by_cases hlast : client.hold - 1 = 0
    · have hback : holdBack client req = fun c =>
          { c with hold := 0, holdArr := client.holdArr ++ [req] } := by
        funext c
        rw [holdBack, if_pos hhold, hlast]
      have hrelease : release client = fun c => { c with holdArr := [] } := by
        funext c
        rw [release, if_pos ⟨hhold, hlast⟩]
      simp only [if_pos hhold, if_pos hlast, batch, hback, hrelease]
    · have hback : holdBack client req = fun c =>
          { c with hold := client.hold - 1, holdArr := client.holdArr ++ [req] } := by
        funext c
        rw [holdBack, if_pos hhold]
      have hrelease : release client = fun c => c := by
        funext c
        rw [release, if_neg fun h => hlast h.2]
      simp only [if_pos hhold, if_neg hlast, batch, hback, hrelease, hkept, handleRequests]
  · have hback : holdBack client req = fun c => c := by
      funext c
      rw [holdBack, if_neg hhold]
    have hrelease : release client = fun c => c := by
      funext c
      rw [release, if_neg fun h => hhold h.1]
    simp only [if_neg hhold, batch, hback, hrelease, hkept, handleRequests]

/-- What is kept by requests and by changes to the client's fields, a message keeps. -/
theorem messageCallback_requests {P : State → Prop} (ambient : ℕ → Ambient) (client : Client)
    (hclient : ∀ f, (∀ c, (f c).fd = c.fd) → ∀ s, P s → P (s.onClient client.fd f))
    (hrequest : ∀ n req s, P s → P (s.requestCallback (ambient n) client.fd req))
    (msg : Option Request) {s : State} (hs : P s) : P (s.messageCallback ambient client msg) := by
  have hflush : ∀ s, P s → P (s.onClient client.fd Client.ipcClientFlushEvents) :=
    hclient Client.ipcClientFlushEvents fun _ => rfl
  cases msg with
  | none => exact hflush s hs
  | some req =>
    rw [messageCallback_eq]
    apply hflush
    apply hclient _ (release_fd client)
    apply handleRequests_preserve ambient client.fd hclient hrequest
    exact hclient _ (holdBack_fd client req) s hs

/-- What each effect of a request keeps, every message keeps. -/
theorem messageCallback_preserve {P : State → Prop} (ambient : ℕ → Ambient)
    (hP : ∀ n x y, Effect (ambient n) x y → P x → P y) (client : Client) (msg : Option Request)
    {s : State} (hs : P s) : P (s.messageCallback ambient client msg) :=
  messageCallback_requests ambient client (fun f _ s => hP 0 _ _ (.client client.fd f s))
    (fun n req s =>
      Library.Runs.preserve (requestCallback_effects (ambient n) client.fd req s) (hP n))
    msg hs

theorem effect_wf {a : Ambient} {x y : State} (h : Effect a x y) (hx : x.db.WF) : y.db.WF := by
  cases h with
  | client | emit | reset => exact hx
  | set ignore id => exact set_wf _ _ _ _ hx
  | update id pinned => exact update_wf hx a id pinned
  | delete id => exact databaseDeleteEntry_wf hx _ id
  | clear => exact databaseClear_wf hx _

theorem requestCallback_wf {s : State} (h : s.db.WF) (a : Ambient) (fd : ℕ) (req : Request) :
    (s.requestCallback a fd req).db.WF :=
  Library.Runs.preserve (P := fun x => x.db.WF) (requestCallback_effects a fd req s)
    (fun _ _ => effect_wf) h

/-! ## Deliveries -/

/-- One thing that a delivered selection does to the state. -/
inductive Part (a : Ambient) : State → State → Prop
  | database (db : Database) (s : State) : Part a s { s with db := db }
  | emit (msg : EventMsg) (s : State) : Part a s { s with ipc := ipcEvent msg s.ipc }
  | set (name : SelectionName) (id : ℤ) (s : State) : Part a s (s.set a.sql (some name) id)
  | reset (s : State) : Part a s { s with id := -1 }

/-- A delivery does a few of them in a row. -/
abbrev Parts (a : Ambient) : State → State → Prop := Relation.ReflTransGen (Part a)

theorem update_parts (a : Ambient) (id : ℤ) (pinned : Option Bool) (s : State) :
    Parts a s (s.update a id pinned).2 := by
  unfold update
  split
  · exact .single (.database _ s)
  · rename_i t db _
    exact (Relation.ReflTransGen.single (.database db s)).tail
      (.emit (.entryUpdate id (some t) pinned) { s with db := db })

theorem saveAttributes_parts (a : Ambient) (o : Outcome) (s : State) :
    Parts a s (s.saveAttributes a.sql o) := by
  rw [saveAttributes_eq]
  exact .single (.database _ s)

theorem finishTransaction_parts (a : Ambient) (o : Outcome) (db : Database) (s : State) :
    Parts a s (s.finishTransaction a o db).2 := by
  unfold finishTransaction
  dsimp only
  split
  · split
    · exact (Relation.ReflTransGen.single (.database _ s)).trans (update_parts ..)
    · exact .single (.database _ s)
  · exact .single (.database _ s)

theorem storeSelection_parts (a : Ambient) (name : SelectionName) (written : ℕ → Option Bytes)
    (mimeTypes : List CString) (s : State) :
    Parts a s (s.storeSelection a name written mimeTypes) := by
  unfold storeSelection
  split
  rename_i o db _
  have hfinish := finishTransaction_parts a o db s
  split <;> rename_i s' hf <;> rw [hf] at hfinish
  · refine Relation.ReflTransGen.tail (hfinish.trans ?_) (.set name o.id _)
    split
    · exact .single (.emit (.entryMove o.id o.oldPos 0) s')
    · exact (saveAttributes_parts a o s').tail (.emit (.entryAdd o.id) _)
  · split
    · exact hfinish.tail (.reset s')
    · exact hfinish

theorem trim_parts (a : Ambient) (s : State) : Parts a s (s.trim a) := by
  have hall : ∀ (ids : List ℤ) (x : State), Parts a x
      { x with ipc := ids.foldl (fun ipc id => ipcEventEntryDelete id ipc) x.ipc } := by
    intro ids
    induction ids with
    | nil => exact fun x => .refl
    | cons id ids ih => exact fun x => (ih _).head (.emit (.entryDelete id) x)
  exact (hall _ s).tail (.database _ _)

/-- What the transient data does not matter to and each part of a delivery keeps, a delivery
keeps. -/
theorem wsignalSelection_preserve {P : State → Prop} (a : Ambient)
    (htransient : ∀ data s, P s → P { s with transient := data })
    (hpart : ∀ x y, Part a x y → P x → P y) (name : SelectionName) (written : ℕ → Option Bytes)
    (mimeTypes : List CString) (transient : Bool) {s : State} (hs : P s) :
    P (s.wsignalSelection a name written mimeTypes transient) := by
  have hclear : P s.clearTransient := htransient [] s hs
  unfold wsignalSelection storeTransient
  split
  · exact hs
  · dsimp only
    split
    · have hreset := hpart _ _ (.reset s.clearTransient) hclear
      split
      · exact hreset
      · exact hpart _ _ (.set name 0 _) (htransient _ _ hreset)
    · split
      · exact hclear
      · rename_i db _
        have hstore := storeSelection_parts a name written mimeTypes
          { s.clearTransient with db := db }
        exact Library.Runs.preserve (hstore.trans (trim_parts a _)) hpart
          (hpart _ _ (.database db s.clearTransient) hclear)

/-! ## What a session keeps -/

/-- What only the compositor and a restart change: the configuration, the file that the
session started from, the toplevel, and the seats except for the sources the daemon owns. -/
structure SameSession (s' s : State) : Prop where
  config : s'.config = s.config
  disk : s'.disk = s.disk
  activeToplevel : s'.activeToplevel = s.activeToplevel
  seats : s'.seats.map Seat.forgetSources = s.seats.map Seat.forgetSources

theorem SameSession.refl (s : State) : s.SameSession s := ⟨rfl, rfl, rfl, rfl⟩

theorem SameSession.trans {s s' s'' : State} (h : s''.SameSession s') (h' : s'.SameSession s) :
    s''.SameSession s :=
  ⟨h.config.trans h'.config, h.disk.trans h'.disk, h.activeToplevel.trans h'.activeToplevel,
    h.seats.trans h'.seats⟩

theorem set_session (sql : Sql) (ignore : Option SelectionName) (id : ℤ) (s : State) :
    (s.set sql ignore id).SameSession s := by
  refine ⟨set_config .., set_disk .., set_activeToplevel .., ?_⟩
  rw [set_seats, Swayclip.waylandSet, List.map_map]
  refine List.map_congr_left fun seat _ => ?_
  dsimp only [Function.comp_apply]
  split
  · exact seatSet_forgetSources ..
  · rfl

theorem update_session (a : Ambient) (id : ℤ) (pinned : Option Bool) (s : State) :
    (s.update a id pinned).2.SameSession s := by
  unfold update
  split <;> exact ⟨rfl, rfl, rfl, rfl⟩

/-- Each part of a delivery leaves the session as it is. -/
theorem part_session {a : Ambient} {x y : State} (h : Part a x y) : y.SameSession x := by
  cases h with
  | database | emit | reset => exact ⟨rfl, rfl, rfl, rfl⟩
  | set name id => exact set_session ..

theorem wsignalSelection_session (a : Ambient) (name : SelectionName) (written : ℕ → Option Bytes)
    (mimeTypes : List CString) (transient : Bool) (s : State) :
    (s.wsignalSelection a name written mimeTypes transient).SameSession s := by
  apply wsignalSelection_preserve (P := fun x => x.SameSession s) a _ _ name written mimeTypes
    transient (.refl s)
  · exact fun data x hx => ⟨hx.config, hx.disk, hx.activeToplevel, hx.seats⟩
  · exact fun x y hpart hx => (part_session hpart).trans hx

theorem effect_session {a : Ambient} {x y : State} (h : Effect a x y) : y.SameSession x := by
  cases h with
  | client | emit | reset | delete | clear => exact ⟨rfl, rfl, rfl, rfl⟩
  | set ignore id => exact set_session ..
  | update id pinned => exact update_session ..

theorem messageCallback_session (ambient : ℕ → Ambient) (client : Client) (msg : Option Request)
    (s : State) : (s.messageCallback ambient client msg).SameSession s :=
  messageCallback_preserve (P := fun x => x.SameSession s) ambient
    (fun _ _ _ he hx => (effect_session he).trans hx) client msg (.refl s)

theorem SameSession.findSeat {s s' : State} (h : s'.SameSession s) (n : ℕ) :
    (s'.findSeat n).map Seat.forgetSources = (s.findSeat n).map Seat.forgetSources := by
  have hmap : ∀ s : State, (s.findSeat n).map Seat.forgetSources =
      (s.seats.map Seat.forgetSources).find? (fun seat => seat.globalName = n) :=
    fun s => (find?_map_seats (f := Seat.forgetSources) (fun _ => rfl) s.seats n).symm
  rw [hmap, hmap, h.seats]

/-! ## Steps -/

theorem onSeat_cases (globalName : ℕ) (f : Seat → State → State) (s : State) :
    s.onSeat globalName f = s ∨
      ∃ seat, s.findSeat globalName = some seat ∧ seat.enabled = true ∧
        s.onSeat globalName f = f seat s := by
  unfold onSeat
  split
  · exact Or.inl rfl
  · rename_i seat hseat
    split
    · rename_i henabled
      exact Or.inr ⟨seat, hseat, henabled, rfl⟩
    · exact Or.inl rfl

/-- A selection event changes its own selection only, unless it reaches the callback. -/
theorem selection_cases (a : Ambient) (type : SelectionType) (offer : Option (ℕ → Option Bytes))
    (timerOk : Bool) (seat : Seat) (s : State) :
    let sel := (selectionEvent seat.blocked offer.isSome s.wsignalCanSet timerOk (seat.sel type)).2
    s.selection a type offer timerOk seat = s.putSeat (seat.setSel type sel) ∨
      ∃ written, offer = some written ∧ (seat.sel type).enabled = true ∧
        (seat.sel type).extDataSource = none ∧ seat.blocked = false ∧
        s.selection a type offer timerOk seat =
          ((s.putSeat (seat.setSel type sel)).wsignalSelection a (seat.globalName, type) written
            seat.mimeTypes seat.transient).clearMimeTypes seat.globalName := by
  intro sel
  have hfst := selectionEvent_fst seat.blocked offer.isSome s.wsignalCanSet timerOk (seat.sel type)
  unfold selection
  dsimp only
  split
  · rename_i written hdeliver
    rw [hdeliver] at hfst
    simp only [Option.isSome_some, Bool.and_true, Bool.true_eq, Bool.and_eq_true,
      Option.isNone_iff_eq_none, Bool.not_eq_true'] at hfst
    exact Or.inr ⟨written, rfl, hfst.1.1, hfst.1.2, hfst.2, rfl⟩
  · exact Or.inl rfl

theorem startup_wf {disk : Tables} (h : disk.WF) (config : Config) (a : Ambient) :
    (startup config a disk).WF := by
  refine ⟨databaseInit_wf ?_ _ _, h⟩
  split
  · exact h
  · exact empty_wf

/-- A connection without an open transaction sees what is durable. -/
theorem committed_of_saved {db : Database} (h : db.saved = none) : db.committed = db.tables := by
  rw [Database.committed, h, Option.getD_none]

/-- The next session finds what is committed, or what this one has found. -/
theorem file_of {P : Tables → Prop} {s : State} (hcommitted : P s.db.committed)
    (hdisk : P s.disk) : P s.file := by
  rw [file]
  split
  · exact hcommitted
  · exact hdisk

theorem file_wf {s : State} (h : s.WF) : s.file.WF := file_of h.db.committed h.disk

theorem handle_wf {s : State} (h : s.WF) (ambient : ℕ → Ambient) (event : Event) :
    (s.handle ambient event).WF := by
  cases event with
  | restart config => exact startup_wf (file_wf h) config (ambient 0)
  | addSeat globalName name =>
    simp only [handle, addSeat]
    split <;> exact ⟨h.db, h.disk⟩
  | removeSeat globalName => exact ⟨h.db, h.disk⟩
  | dataOffer seat | offer seat mimeType | cancelled name current =>
    rcases onSeat_cases _ _ s with he | ⟨seat, -, -, he⟩ <;> rw [handle, he]
    · exact h
    · exact ⟨h.db, h.disk⟩
  | nullTimer name ok =>
    rcases onSeat_cases name.1 (nullTimer (ambient 0) name.2 ok) s with he | ⟨seat, -, -, he⟩ <;>
      rw [handle, he]
    · exact h
    · unfold nullTimer
      split <;> exact ⟨h.db, h.disk⟩
  | selection name offer timerOk =>
    rcases onSeat_cases name.1 (selection (ambient 0) name.2 offer timerOk) s with
      he | ⟨seat, -, -, he⟩ <;> rw [handle, he]
    · exact h
    · rcases selection_cases (ambient 0) name.2 offer timerOk seat s with
        hs | ⟨written, -, -, -, -, hs⟩ <;> rw [hs]
      · exact ⟨h.db, h.disk⟩
      · have hsession := wsignalSelection_session (ambient 0) (seat.globalName, name.2) written
          seat.mimeTypes seat.transient
        refine ⟨wsignalSelection_wf (s := s.putSeat _) h.db _ _ _ _ _, ?_⟩
        exact (hsession (s.putSeat _)).disk ▸ h.disk
  | toplevel tp => exact ⟨h.db, h.disk⟩
  | connect fd =>
    simp only [handle, connect]
    split <;> exact ⟨h.db, h.disk⟩
  | disconnect fd => exact ⟨h.db, h.disk⟩
  | message fd msg =>
    simp only [handle]
    split
    · exact h
    · rename_i client _
      exact messageCallback_preserve (P := WF) ambient
        (fun n x y he hx => ⟨effect_wf he hx.db, (effect_session he).disk ▸ hx.disk⟩) client msg h

end State

theorem Reachable.wf {s : State} (h : Reachable s) : s.WF := by
  refine h.induction (fun config a => State.startup_wf empty_wf config a) fun s i hs => ?_
  exact State.handle_wf hs i.ambient i.event

end Swayclip
