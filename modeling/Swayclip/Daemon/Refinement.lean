import Swayclip.Daemon.Reflection

/-! # The daemon is a clipboard manager

As long as no database call fails and no two contents have the same hash, the daemon does with its
rows what the manager does with its history: what is copied and requested decides what there is,
what is current and what somebody who pastes gets.
-/

namespace Swayclip
open Library.Runs Tables

/-- The state of the daemon is that of the manager. -/
structure Manager.Reflects (C : Set Content) (D : Set Bytes) (s : State) (m : Manager) : Prop where
  config : m.config = s.config
  saved : s.db.saved = none
  live : ∃ origins, m.live.Reflects C D origins s.db.tables
  disk : ∃ origins, m.disk.Reflects C D origins s.disk
  current : m.current = s.id
  transient : m.transient = s.transient
  known : -1 ≤ s.id

namespace State

/-- What the manager is told of a step. -/
def actions (s : State) (i : Input) : List Action :=
  match i.event with
  | .restart config => [.restart config]
  | .selection name (some written) _ =>
    match s.findSeat name.1 with
    | none => []
    | some seat =>
      if reaches name.2 seat = true ∧ seat.mimeTypes ≠ [] then
        [.copy seat.transient (receiveAll s.config written 0 seat.mimeTypes)]
      else []
  | .message fd _ => (s.executed fd i).map fun x => .request x.request
  | _ => []

theorem actions_delivered {s : State} {i : Input} {name : SelectionName} {seat : Seat}
    {written : ℕ → Option Bytes} {timerOk : Bool}
    (hevent : i.event = .selection name (some written) timerOk) (h : Delivers s name seat) :
    s.actions i = if seat.mimeTypes ≠ [] then
      [.copy seat.transient (receiveAll s.config written 0 seat.mimeTypes)] else [] := by
  obtain ⟨hseat, hreaches⟩ := delivers_iff.mp h
  simp only [actions, hevent, hseat, hreaches, true_and]

theorem actions_quiet {s : State} {i : Input} (hevent : NotDelivered s i.event)
    (hrestart : ∀ config, i.event ≠ .restart config)
    (hmessage : ∀ fd msg, i.event ≠ .message fd msg) : s.actions i = [] := by
  unfold actions
  split
  · rename_i config he
    exact absurd he (hrestart config)
  · rename_i name written timerOk he
    cases hseat : s.findSeat name.1 with
    | none => rfl
    | some seat =>
      refine if_neg fun h => ?_
      exact hevent name written timerOk seat he (delivers_iff.mpr ⟨hseat, h.1⟩)
  · rename_i fd msg he
    exact absurd he (hmessage fd msg)
  · rfl

theorem lastEntry_set (ignore : Option SelectionName) (id : ℤ) (s : State) :
    (s.set allOk ignore id).db.tables.lastEntry =
      if id > 0 then some id else s.db.tables.lastEntry := by
  rw [set_db]
  split <;> rfl

end State

namespace Manager

section Reflects
variable {C : Set Content} {D : Set Bytes} {s s' : State} {m : Manager}

theorem Reflects.wf (h : m.Reflects C D s) : s.WF := by
  obtain ⟨_, hlive⟩ := h.live
  obtain ⟨_, hdisk⟩ := h.disk
  refine ⟨⟨hlive.wf, fun t ht => ?_⟩, hdisk.wf⟩
  rw [h.saved] at ht
  cases ht

theorem Reflects.sameCore (h : m.Reflects C D s) (hsame : s'.SameCore s) : m.Reflects C D s' where
  config := h.config.trans hsame.config.symm
  saved := by rw [hsame.db, h.saved]
  live := by rw [hsame.db]; exact h.live
  disk := by rw [hsame.disk]; exact h.disk
  current := h.current.trans hsame.id.symm
  transient := h.transient.trans hsame.transient.symm
  known := by rw [hsame.id]; exact h.known

theorem Reflects.onClient (h : m.Reflects C D s) (fd : ℕ) (f : Client → Client) :
    m.Reflects C D (s.onClient fd f) :=
  h.sameCore ⟨rfl, rfl, rfl, rfl, rfl, rfl⟩

theorem Reflects.set (h : m.Reflects C D s) (ignore : Option SelectionName) (id : ℤ)
    (hid : -1 ≤ id) : (m.select id).Reflects C D (s.set allOk ignore id) := by
  obtain ⟨origins, hlive⟩ := h.live
  refine ⟨?_, ?_, ⟨origins, ?_⟩, ?_, ?_, ?_, ?_⟩
  · rw [State.set_config]
    exact h.config
  · rw [State.set_saved, h.saved]
  · have hlast := State.lastEntry_set ignore id s
    have hset := hlive.sameRows (State.set_sameRows allOk ignore id s) (by
      intro last hsome
      rw [hlast] at hsome
      split at hsome
      · rename_i hpos
        obtain rfl := Option.some.inj hsome
        exact hpos
      · exact hlive.lastPos last hsome)
    rw [hlast] at hset
    rw [select]
    split
    · rename_i hpos
      rwa [if_pos hpos] at hset
    · rename_i hpos
      rwa [if_neg hpos, ← hlive.last] at hset
  · rw [State.set_disk]
    exact h.disk
  · rw [State.set_id]
    rfl
  · rw [State.set_transient]
    exact h.transient
  · rw [State.set_id]
    exact hid

/-- Only the rows of the entries in view change. -/
theorem Reflects.withTables (h : m.Reflects C D s) {origins : Origins} {live : Shelf} {t : Tables}
    (hlive : live.Reflects C D origins t) (ipc : List Client) :
    ({ m with live := live } : Manager).Reflects C D
      { s with db := { s.db with tables := t }, ipc := ipc } :=
  ⟨h.config, h.saved, ⟨origins, hlive⟩, h.disk, h.current, h.transient, h.known⟩

theorem Reflects.lost (h : m.Reflects C D s) :
    ({ m with current := -1 } : Manager).Reflects C D { s with id := -1 } :=
  ⟨h.config, h.saved, h.live, h.disk, rfl, h.transient, le_rfl⟩

theorem Reflects.keep (h : m.Reflects C D s) (content : Content) :
    ({ m with transient := content } : Manager).Reflects C D { s with transient := content } :=
  ⟨h.config, h.saved, h.live, h.disk, h.current, rfl, h.known⟩

/-! ## Copies -/

section Copies
variable {a : Ambient} (hsql : a.sql = allOk)
include hsql

theorem Reflects.trim (h : m.Reflects C D s) : m.trim.Reflects C D (s.trim a) := by
  obtain ⟨origins, hlive⟩ := h.live
  have htrimmed := h.withTables (hlive.trim s.config.maxEntries)
    ((s.db.tables.trim s.config.maxEntries).1.foldl
      (fun ipc id => ipcEventEntryDelete id ipc) s.ipc)
  rw [← h.config] at htrimmed
  rw [State.trim, hsql, ← h.config]
  exact htrimmed

/-- What becomes of the content, with the verdict that was taken on its hash. -/
theorem Reflects.store (h : m.Reflects C D s) (hC : Set.InjOn Content.hash C)
    (hD : Set.InjOn sha256 D) {name : SelectionName} {received : Option Content}
    (hreceived : ∀ content ∈ received, content ∈ C ∧ ∀ e ∈ content, e.2 ∈ D)
    (hcopied : State.Copied a name received s s') : (m.store received).Reflects C D s' := by
  obtain ⟨origins, hlive⟩ := h.live
  have hdb : ∀ t : Tables, (⟨t, none⟩ : Database) = { s.db with tables := t } := fun t => by
    rw [← h.saved]
  cases hcopied with
  | failed hnone =>
    subst hnone
    exact h.lost
  | @ignored content hsome hverdict =>
    subst hsome
    obtain ⟨hcontent, -⟩ := hreceived content rfl
    have hcopy := hlive.copy hC hcontent s.config.dedup
    rw [hverdict, ← h.config] at hcopy
    rw [Manager.store, hcopy]
    exact h
  | @moved content id pos hsome hverdict =>
    subst hsome
    obtain ⟨hcontent, -⟩ := hreceived content rfl
    have hcopy := hlive.copy hC hcontent s.config.dedup
    rw [hverdict, ← h.config] at hcopy
    obtain ⟨e, he, -, rfl, -⟩ := verdict_move hverdict
    have hpos := hlive.wf.idPos e he
    have hraised := (h.withTables (hlive.moveEntry a.now he)
      (ipcEventEntryMove e.id pos 0 (ipcEventEntryUpdate e.id (some a.now) none s.ipc))).set
        (some name) e.id (by omega)
    rw [Manager.store, hcopy, State.movedFront, hsql, hdb]
    simp only [Manager.select, if_pos hpos] at hraised
    exact hraised
  | @added content t f hsome hverdict hadd =>
    subst hsome
    obtain ⟨hcontent, hdata⟩ := hreceived content rfl
    have hcopy := hlive.copy hC hcontent s.config.dedup
    rw [hverdict, ← h.config] at hcopy
    have hpos : 0 < s.db.tables.nextId := nextId_pos hlive.wf
    have hadded := (h.withTables ((hlive.addEntry hC hD hcontent hdata hadd).mapAttributes
      s.db.tables.nextId f) (ipcEventEntryAdd s.db.tables.nextId s.ipc)).set
        (some name) s.db.tables.nextId (by omega)
    rw [Manager.store, hcopy, State.committed, hsql, hdb]
    simp only [Manager.select, if_pos hpos] at hadded
    simp only [Shelf.settle, Shelf.add, hlive.next] at hadded ⊢
    exact hadded

theorem Reflects.copied (h : m.Reflects C D s) (hC : Set.InjOn Content.hash C)
    (hD : Set.InjOn sha256 D) {name : SelectionName} {written : ℕ → Option Bytes}
    {mimeTypes : List CString} {transient : Bool}
    (hreceived : ∀ content ∈ receiveAll s.config written 0 mimeTypes,
      content ∈ C ∧ ∀ e ∈ content, e.2 ∈ D)
    (hhandled : State.Handled a name written mimeTypes transient s s') :
    ((if mimeTypes ≠ [] then [Action.copy transient (receiveAll s.config written 0 mimeTypes)]
      else []).foldl act m).Reflects C D s' := by
  cases hhandled with
  | empty hmime =>
    rw [if_neg (not_not.mpr hmime)]
    exact h
  | lost hmime htransient hnone =>
    rw [if_pos hmime, htransient, hnone]
    exact (h.keep []).lost
  | @kept hmime htransient content hsome =>
    rw [if_pos hmime, htransient, hsome, hsql]
    have hkept := ((h.keep content).lost).set (some name) 0 (by omega)
    exact hkept
  | stored hmime htransient hcopied =>
    rw [if_pos hmime, htransient]
    have hstored := (h.keep []).store hsql hC hD (s := s.clearTransient) hreceived hcopied
    exact hstored.trim hsql

end Copies

/-! ## Requests -/

theorem Reflects.has_iff (h : m.Reflects C D s) {id : ℤ} :
    m.live.Has id ↔ s.db.tables.idExists id = true := by
  obtain ⟨_, hlive⟩ := h.live
  exact hlive.has_iff

theorem remove_missing {h : Shelf} {id : ℤ} (hid : ¬ h.Has id) : h.remove id = h := by
  have hkept : (h.items.filter fun x => x.id ≠ id) = h.items :=
    List.filter_eq_self.mpr fun x hx => decide_eq_true fun hsame => hid ⟨x, hx, hsame⟩
  rw [Shelf.remove, hkept]

theorem setPinned_missing {h : Shelf} {id : ℤ} (hid : ¬ h.Has id) (f : Bool → Bool) :
    h.setPinned id f = h := by
  have hkept : (h.items.map fun x => if x.id = id then { x with pinned := f x.pinned } else x) =
      h.items :=
    (List.map_congr_left fun x hx => if_neg fun hsame => hid ⟨x, hx, hsame⟩).trans (List.map_id' _)
  rw [Shelf.setPinned, hkept]

section Requests
variable {a : Ambient} (hsql : a.sql = allOk)
include hsql

theorem Reflects.refresh (h : m.Reflects C D s) (id : ℤ) :
    m.Reflects C D (s.update a id none).2 := by
  obtain ⟨origins, hlive⟩ := h.live
  rw [State.update_eq hsql]
  exact h.withTables (hlive.refresh a.now id) _

/-- The entry that is gone is no longer current. -/
theorem Reflects.entryDeleted (h : m.Reflects C D s) (fd : ℕ) (id : ℤ) :
    ({ m with current := if id = -1 ∨ id = m.current then -1 else m.current } : Manager).Reflects
      C D (s.entryDeleted a fd id) := by
  have hsame : ∀ t : State, ({ t.sendSuccess fd with
      ipc := ipcEventEntryDelete id (t.sendSuccess fd).ipc } : State).SameCore t :=
    fun t => ⟨rfl, rfl, rfl, rfl, rfl, rfl⟩
  rw [State.entryDeleted, h.current, hsql]
  split
  · exact (h.lost.set none (-1) le_rfl).sameCore (hsame _)
  · have hkept : ({ m with current := s.id } : Manager) = m := by rw [← h.current]
    rw [hkept]
    exact h.sameCore (hsame s)

/-- The statement finds what the manager has. -/
theorem Reflects.idExists (h : m.Reflects C D s) (id : ℤ) :
    databaseIdExists (a.sql .idExists 0) id s.db = decide (m.live.Has id) := by
  rw [hsql, databaseIdExists, allOk_apply, Bool.true_and, Bool.eq_iff_iff, decide_eq_true_iff,
    h.has_iff]

theorem Reflects.setClipboard (h : m.Reflects C D s) (fd : ℕ) (id : Option ℤ) :
    (m.request (.setClipboard id)).Reflects C D (s.serveSetClipboard a fd id) := by
  cases id with
  | none => exact h.onClient fd _
  | some id =>
    have hmissing : (id ≠ -1 ∧ (!databaseIdExists (a.sql .idExists 0) id s.db) = true) ↔
        ¬(id = -1 ∨ m.live.Has id) := by
      rw [h.idExists hsql, Bool.not_eq_true', decide_eq_false_iff_not, not_or]
    by_cases hid : id = -1 ∨ m.live.Has id
    · have hknown : -1 ≤ id := by
        rcases hid with rfl | hhas
        · exact le_rfl
        · obtain ⟨e, he, rfl⟩ := idExists_iff.mp (h.has_iff.mp hhas)
          have hpos := h.wf.db.tables.idPos e he
          omega
      have hset := ((h.set none id hknown).refresh hsql id).onClient fd ipcClientSendSuccess
      rw [State.serveSetClipboard, if_neg (hmissing.not.mpr (not_not.mpr hid)), Manager.request,
        if_pos hid]
      rw [State.update_eq hsql, ← hsql] at hset
      rw [State.update_eq hsql]
      exact hset
    · rw [State.serveSetClipboard, if_pos (hmissing.mpr hid), Manager.request, if_neg hid]
      exact h.onClient fd _

theorem Reflects.deleteEntry (h : m.Reflects C D s) (fd : ℕ) (id : Option ℤ) :
    (m.request (.deleteEntry id)).Reflects C D (s.serveDeleteEntry a fd id) := by
  cases id with
  | none => exact h.onClient fd _
  | some id =>
    obtain ⟨origins, hlive⟩ := h.live
    by_cases hclear : id = -1
    · subst hclear
      have hserved : s.serveDeleteEntry a fd (some (-1)) =
          (s.withoutEntries (s.db.tables.entries.map Entry.id)).entryDeleted a fd (-1) := by
        simp only [State.serveDeleteEntry, hsql]
        rfl
      rw [hserved]
      exact (h.withTables hlive.clear s.ipc).entryDeleted hsql fd (-1)
    · have hfound := h.idExists hsql id
      by_cases hid : m.live.Has id
      · have hserved : s.serveDeleteEntry a fd (some id) =
            (s.withoutEntries [id]).entryDeleted a fd id := by
          rw [decide_eq_true hid, hsql] at hfound
          simp only [State.serveDeleteEntry, if_neg hclear, hsql, hfound]
          rfl
        have hdeleted := (h.withTables (hlive.remove id) s.ipc).entryDeleted hsql fd id
        simp only [hclear, false_or] at hdeleted
        simp only [hserved, Manager.request, if_neg hclear, hid, true_and, eq_comm (b := id)]
        exact hdeleted
      · rw [decide_eq_false hid] at hfound
        simp only [State.serveDeleteEntry, Manager.request, if_neg hclear, hfound,
          remove_missing hid, hid, false_and, if_false]
        exact h.onClient fd _

/-- The flag is found in the row, and not changed where the word is none of the three. -/
theorem Reflects.pinEntry (h : m.Reflects C D s) (fd : ℕ) (id : Option ℤ) (pin : Option PinArg) :
    (m.request (.pinEntry id pin)).Reflects C D (s.servePinEntry a fd id pin) := by
  cases id with
  | none => exact h.onClient fd _
  | some id =>
    cases pin with
    | none => exact h.onClient fd _
    | some pin =>
      obtain ⟨origins, hlive⟩ := h.live
      have hfound := h.idExists hsql id
      by_cases hid : m.live.Has id
      · rw [decide_eq_true hid] at hfound
        by_cases hpin : pin = .other
        · subst hpin
          have hsame : m.live.setPinned id (Clipboard.pinned .other) = m.live :=
            Shelf.setPinned_id m.live id
          simp only [State.servePinEntry, hfound, Manager.request, hsame]
          exact h.onClient fd _
        · obtain ⟨flag, hflag, hrows⟩ := State.pinFlag_eq h.wf hsql id hpin
          have hupdated : (m.live.setPinned id (Clipboard.pinned pin)).Reflects C D origins
              (s.db.tables.updateEntry a.now (some flag) id) := by
            refine hlive.updateEntry a.now fun e he hsame => ?_
            exact hrows (e.id, e.pinned) (List.mem_map.mpr ⟨e, mem_history.mpr he, rfl⟩) hsame
          have hpinned := h.withTables hupdated
            (ipcEventEntryUpdate id (some a.now) (some flag) s.ipc)
          simp only [State.servePinEntry, hfound, hflag, State.update_eq hsql]
          exact hpinned.onClient fd _
      · rw [decide_eq_false hid] at hfound
        simp only [State.servePinEntry, hfound, Manager.request, setPinned_missing hid]
        exact h.onClient fd _

theorem Reflects.request (h : m.Reflects C D s) (fd : ℕ) (req : Request) :
    (m.request req).Reflects C D (s.requestCallback a fd req) := by
  have hserved := State.requestCallback_served hsql fd req s
  cases req with
  | setClipboard id => exact h.setClipboard hsql fd id
  | deleteEntry id => exact h.deleteEntry hsql fd id
  | pinEntry id pin => exact h.pinEntry hsql fd id pin
  | subscribe =>
    generalize State.requestCallback a fd _ s = s' at hserved ⊢
    cases hserved with
    | replied msg => exact h.onClient fd _
    | subscribed => exact (h.onClient fd _).onClient fd _
  | holdRequests =>
    generalize State.requestCallback a fd _ s = s' at hserved ⊢
    cases hserved with
    | replied msg => exact h.onClient fd _
    | held => exact (h.onClient fd _).onClient fd _
  | getHistoryLength | getHistory | getData | getCurrent | invalid =>
    generalize State.requestCallback a fd _ s = s' at hserved ⊢
    cases hserved with
    | replied msg => exact h.onClient fd _

end Requests

section Steps
variable {ambient : ℕ → Ambient}

theorem Reflects.requests (h : m.Reflects C D s) (hsql : ∀ n, (ambient n).sql = allOk) (fd n : ℕ)
    (reqs : List Request) : ((reqs.map Action.request).foldl act m).Reflects C D
      (s.handleRequests ambient fd n reqs) := by
  induction reqs generalizing s m n with
  | nil => exact h
  | cons req reqs ih =>
    have hopened := h.onClient fd fun client => { client with handlingReq := true }
    exact ih ((hopened.request (hsql n) fd req).onClient fd _) (n + 1)

theorem Reflects.message (h : m.Reflects C D s) (hsql : ∀ n, (ambient n).sql = allOk) (fd : ℕ)
    (msg : Option Request) : ((s.actions ⟨.message fd msg, ambient⟩).foldl act m).Reflects C D
      (step s ⟨.message fd msg, ambient⟩) := by
  simp only [step, State.handle, State.actions]
  cases hclient : s.findClient fd with
  | none =>
    have hnone : s.executed fd ⟨.message fd msg, ambient⟩ = [] := by
      cases msg <;> simp only [State.executed, hclient]
    rw [hnone]
    exact h
  | some client =>
    cases msg with
    | none => exact h.onClient client.fd _
    | some req =>
      obtain rfl : client.fd = fd := State.findClient_fd hclient
      have hbatch : (s.executed client.fd ⟨.message client.fd (some req), ambient⟩).map
          (fun x => Action.request x.request) = (State.batch client req).map Action.request := by
        rw [State.executed_message rfl hclient]
        refine List.map_map.symm.trans (congrArg (List.map Action.request) ?_)
        exact State.exchanges_request ambient (State.batch client req) 0
      simp only [hbatch, State.messageCallback_eq]
      exact (((h.onClient client.fd _).requests hsql client.fd 0 _).onClient client.fd _).onClient
        client.fd _

/-- What the next session finds. -/
theorem Reflects.file (h : m.Reflects C D s) :
    ∃ origins, m.file.Reflects C D origins s.file := by
  rw [Manager.file, State.file, h.config, Database.committed, h.saved, Option.getD_none]
  split
  · exact h.live
  · exact h.disk

theorem start_reflects {a : Ambient} (hsql : a.sql = allOk) (config : Config) {origins : Origins}
    {disk : Shelf} {file : Tables} (h : disk.Reflects C D origins file) :
    (start config disk).Reflects C D (State.startup config a file) := by
  have hfound : ∃ origins, (if config.persist then disk else Shelf.empty).Reflects C D origins
      (if config.persist then file else Tables.empty) := by
    split
    · exact ⟨origins, h⟩
    · exact ⟨[], Shelf.reflects_empty⟩
  obtain ⟨found, hfound⟩ := hfound
  have hlive := hfound.trim config.maxEntries
  refine ⟨rfl, State.startup_saved .., ⟨found, ?_⟩, ⟨origins, h⟩, ?_, rfl, ?_⟩
  · rw [State.startup, hsql]
    exact hlive
  · simp only [start, State.startup, hsql, hlive.last]
    rfl
  · simp only [State.startup, hsql, databaseGetSetting, allOk_apply, if_true]
    split
    · have hlast : ((if config.persist then file else Tables.empty).trim
          config.maxEntries).2.lastEntry = (databaseInit true config.maxEntries
            (if config.persist then file else Tables.empty)).tables.lastEntry := rfl
      rw [← hlast]
      cases hsome : ((if config.persist then file else Tables.empty).trim
          config.maxEntries).2.lastEntry with
      | none => exact le_rfl
      | some id =>
        have hpos := hlive.lastPos id hsome
        rw [Option.getD_some]
        omega
    · exact le_rfl

/-- A step of the daemon is what the manager does with the actions of the step. -/
theorem Reflects.step {i : Input} (h : m.Reflects C D s) (hC : Set.InjOn Content.hash C)
    (hD : Set.InjOn sha256 D) (hsql : ∀ n, (i.ambient n).sql = allOk)
    (hcontents : ∀ content ∈ s.receivedContents i, content ∈ C)
    (hdata : ∀ data ∈ s.receivedData i, data ∈ D) :
    ((s.actions i).foldl act m).Reflects C D (Swayclip.step s i) := by
  by_cases hmessage : ∃ fd msg, i.event = .message fd msg
  · obtain ⟨fd, msg, hevent⟩ := hmessage
    obtain ⟨event, ambient⟩ := i
    obtain rfl : event = .message fd msg := hevent
    exact h.message hsql fd msg
  · by_cases hrestart : ∃ config, i.event = .restart config
    · obtain ⟨config, hevent⟩ := hrestart
      obtain ⟨event, ambient⟩ := i
      obtain rfl : event = .restart config := hevent
      obtain ⟨origins, hfile⟩ := h.file
      exact start_reflects (hsql 0) config hfile
    · have hsession : ∀ config, i.event ≠ .restart config := not_exists.mp hrestart
      have hnone : ∀ fd msg, i.event ≠ .message fd msg := fun fd msg hevent =>
        hmessage ⟨fd, msg, hevent⟩
      have htransition := State.step_transition s i
      generalize Swayclip.step s i = s' at htransition ⊢
      cases htransition with
      | quiet hevent hsame =>
        rw [State.actions_quiet hevent hsession hnone]
        exact h.sameCore hsame
      | restarted hevent => exact absurd hevent (hsession _)
      | served hevent => exact absurd hevent (hnone _ _)
      | @delivered name seat written timerOk hevent hdelivers =>
        have hopened : m.Reflects C D (s.withOffer name seat) :=
          h.sameCore ⟨rfl, rfl, rfl, rfl, rfl, rfl⟩
        have hreceived : ∀ content ∈ receiveAll s.config written 0 seat.mimeTypes,
            content ∈ C ∧ ∀ e ∈ content, e.2 ∈ D := by
          intro content hcontent
          have hsame : s.received i = some content :=
            (State.received_delivered hevent hdelivers).trans hcontent
          refine ⟨hcontents content ?_, fun e he => hdata e.2 ?_⟩
          · rw [State.receivedContents, hsame]
            exact List.mem_singleton_self content
          · rw [State.receivedData, hsame]
            exact List.mem_flatMap.mpr
              ⟨content, List.mem_singleton_self content, List.mem_map_of_mem he⟩
        have hhandled := State.wsignalSelection_handled (s := s.withOffer name seat) (hsql 0)
          h.saved hopened.wf.db.tables name written seat.mimeTypes seat.transient
        have hcopied := hopened.copied (hsql 0) hC hD hreceived hhandled
        rw [State.actions_delivered hevent hdelivers]
        exact hcopied.sameCore ⟨rfl, rfl, rfl, rfl, rfl, rfl⟩

end Steps

/-! ## What is pasted -/

theorem Reflects.paste (h : m.Reflects C D s) (mimeType : CString) :
    s.wsignalSend true mimeType = m.paste mimeType := by
  obtain ⟨origins, hlive⟩ := h.live
  have hknown := h.known
  rw [Manager.paste, State.wsignalSend, h.current, h.transient]
  by_cases hzero : s.id = 0
  · have hnone : ¬ s.id = -1 := by omega
    have hpos : ¬ s.id > 0 := by omega
    rw [if_neg hnone, if_neg hpos, if_pos hzero, Content.first]
    cases s.transient.find? fun e => e.1 = mimeType <;> rfl
  · rw [if_neg hzero]
    cases hfind : m.live.items.find? fun x => x.id = s.id with
    | none =>
      have hmissing : ¬ s.clipboard.Has s.id := by
        rw [State.has_iff, ← h.has_iff]
        rintro ⟨x, hx, hid⟩
        exact List.find?_eq_none.mp hfind x hx (decide_eq_true hid)
      split
      · rfl
      · rw [databaseGetData, if_pos rfl]
        have hgone := State.getData_of_not_has h.wf hmissing mimeType
        split
        · exact hgone
        · omega
    | some x =>
      have hx := List.mem_of_find?_eq_some hfind
      have hid : x.id = s.id := by simpa using List.find?_some hfind
      have hexists := h.has_iff.mp ⟨x, hx, hid⟩
      obtain ⟨e, he, heid⟩ := idExists_iff.mp hexists
      have hpos := hlive.wf.idPos e he
      have hnone : ¬ s.id = -1 := by omega
      rw [if_neg hnone, if_pos (by omega), databaseGetData, if_pos rfl, ← hid,
        (hlive.holds hx).2 mimeType]
      rfl

end Reflects

end Manager

/-- As long as no database call fails, the daemon is the manager: over all sessions, the history
that it shows, the data that its entries hold, what is current and what is pasted are what the
manager has after the same copies and requests. -/
theorem run_refines_manager (config : Config) {a : Ambient} (ha : a.sql = allOk)
    {inputs : List Input} (hsql : ∀ i ∈ inputs, ∀ n, (i.ambient n).sql = allOk)
    (hC : Set.InjOn Content.hash
      {content | content ∈ record step State.receivedContents (boot config a) inputs})
    (hD : Set.InjOn sha256
      {data | data ∈ record step State.receivedData (boot config a) inputs}) :
    let s := run step (boot config a) inputs
    let m := Manager.ofActions config (record step State.actions (boot config a) inputs)
    s.db.tables.view = m.live.items.map (fun x => (x.id, x.pinned)) ∧
      (∀ x ∈ m.live.items, s.db.tables.Holds x.id x.content) ∧ s.id = m.current ∧
      ∀ mimeType, s.wsignalSend true mimeType = m.paste mimeType := by
  intro s m
  let C : Set Content :=
    {content | content ∈ record step State.receivedContents (boot config a) inputs}
  let D : Set Bytes := {data | data ∈ record step State.receivedData (boot config a) inputs}
  have hcontents : Meets step (fun s i => ∀ content ∈ s.receivedContents i, content ∈ C)
      (boot config a) inputs := meets_record.mpr fun content h => h
  have hdata : Meets step (fun s i => ∀ data ∈ s.receivedData i, data ∈ D) (boot config a) inputs :=
    meets_record.mpr fun data h => h
  have hboot : (Manager.start config Shelf.empty).Reflects C D (boot config a) :=
    Manager.start_reflects ha config Shelf.reflects_empty
  have hreflects : (Manager.ofActions config
      ([] ++ record step State.actions (boot config a) inputs)).Reflects C D s := by
    refine run_record_invariant (I := fun actions s => (Manager.ofActions config actions).Reflects
      C D s) (fun actions s i hs hi => ?_) hboot ((hcontents.and hdata).and_of_mem hsql)
    rw [Manager.ofActions, List.foldl_append]
    exact hs.step hC hD hi.2 hi.1.1 hi.1.2
  obtain ⟨origins, hlive⟩ := hreflects.live
  exact ⟨hlive.view, fun x hx => hlive.holds hx, hreflects.current.symm, hreflects.paste⟩

/-- After the copies, the second text is pinned, the first one deleted, and the second one made
current again. -/
def pinnedAndReplaced : List Input :=
  copiedAfterRestart ++ [.quiet (.connect 5),
    .quiet (.message 5 (some (.pinEntry (some 2) (some .toggle)))),
    .quiet (.message 5 (some (.deleteEntry (some 1)))),
    .quiet (.message 5 (some (.setClipboard (some 2))))]

theorem pinnedAndReplaced_sql : ∀ i ∈ pinnedAndReplaced, ∀ n, (i.ambient n).sql = allOk := by
  intro i hi
  rcases List.mem_append.mp hi with hcopied | hrequested
  · exact (copiedAfterRestart_dedupsAll i hcopied).sql
  · simp only [List.mem_cons, List.not_mem_nil, or_false] at hrequested
    rcases hrequested with rfl | rfl | rfl | rfl <;> exact fun _ => rfl

/-- The second text is what is left, and what is pasted. -/
theorem pinnedAndReplaced_manager :
    let s := run step (boot configInit (.quiet 0)) pinnedAndReplaced
    s.db.tables.view = [(2, true)] ∧ s.id = 2 ∧ s.wsignalSend true textPlain = some [66] := by
  have hcontents : record step State.receivedContents (boot configInit (.quiet 0))
      pinnedAndReplaced = [[(textPlain, [65])], [(textPlain, [66])], [(textPlain, [65])]] := by
    decide +kernel
  have hdata : record step State.receivedData (boot configInit (.quiet 0)) pinnedAndReplaced =
      [[65], [66], [65]] := by
    decide +kernel
  have hdigests : sha256 [65] ≠ sha256 [66] := by decide +kernel
  obtain ⟨hview, -, hcurrent, hpaste⟩ := run_refines_manager configInit (a := .quiet 0) rfl
    pinnedAndReplaced_sql (by rw [hcontents]; exact injOn_of_two texts_hash_ne (by simp))
    (by rw [hdata]; exact injOn_of_two hdigests (by simp))
  exact ⟨hview.trans (by decide +kernel), hcurrent.trans (by decide +kernel),
    (hpaste textPlain).trans (by decide +kernel)⟩

end Swayclip
