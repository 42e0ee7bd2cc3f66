import Swayclip.Daemon.Exchange
import Swayclip.Daemon.Permanence
import Swayclip.Daemon.Statements

/-! # A pinned entry is not lost

Trims pass over pinned entries, at a restart too, and no statement of a selection event deletes or
unpins one. So an entry that has been pinned stays until a client asks for the opposite.
-/

namespace Swayclip
open Library Library.Runs Tables

/-- The request may delete or unpin the entry. -/
def Request.Drops (id : ℤ) : Request → Prop
  | .deleteEntry (some other) => other = -1 ∨ other = id
  | .pinEntry (some other) (some .no) => other = id
  | .pinEntry (some other) (some .toggle) => other = id
  | _ => False

namespace Tables

/-- The entry is in the history, and pinned. -/
structure Pins (id : ℤ) (t : Tables) : Prop where
  wf : t.WF
  shown : (id, true) ∈ t.view

section Pins
variable {t t' : Tables} {id : ℤ}

theorem mem_view {b : Bool} : (id, b) ∈ t.view ↔ ∃ e ∈ t.entries, e.id = id ∧ e.pinned = b := by
  simp [view, mem_history]

/-- Rows that are rewritten keep the flag. -/
theorem shown_of_map {f : Entry → Entry} (hentries : t'.entries = t.entries.map f)
    (hid : ∀ e, (f e).id = e.id) (hpin : ∀ e, e.id = id → e.pinned = true → (f e).pinned = true)
    (h : (id, true) ∈ t.view) : (id, true) ∈ t'.view := by
  obtain ⟨e, he, heid, hpinned⟩ := mem_view.mp h
  refine mem_view.mpr ⟨f e, ?_, (hid e).trans heid, hpin e heid hpinned⟩
  rw [hentries]
  exact List.mem_map_of_mem he

theorem shown_of_entries (hentries : t'.entries = t.entries) (h : (id, true) ∈ t.view) :
    (id, true) ∈ t'.view :=
  shown_of_map (f := fun e => e) (hentries.trans (List.map_id _).symm) (fun _ => rfl)
    (fun _ _ hpinned => hpinned) h

theorem Statement.shown (h : t.Statement t') (ht : t.Pins id) : (id, true) ∈ t'.view := by
  cases h with
  | saveSetting value => exact shown_of_entries rfl ht.shown
  | newEntry now =>
    rw [view_newEntry ht.wf]
    exact List.mem_cons_of_mem _ ht.shown
  | newData dataId data =>
    refine shown_of_entries ?_ ht.shown
    unfold Tables.newData
    split <;> rfl
  | newMimeType h => exact shown_of_entries (entries_newMimeType h) ht.shown
  | saveAttribute key value other =>
    exact shown_of_map rfl (fun e => by split <;> rfl) (fun e _ hpin => by split <;> exact hpin)
      ht.shown
  | @saveEntryHash _ value other hash h =>
    unfold Tables.saveEntryHash at h
    split at h
    · rw [← Option.some.inj h]
      exact shown_of_map rfl (fun e => by unfold rehash; split <;> rfl)
        (fun e _ hpin => by unfold rehash; split <;> exact hpin) ht.shown
    · cases h
  | updateSortIndex other =>
    exact shown_of_map rfl (fun e => by split <;> rfl) (fun e _ hpin => by split <;> exact hpin)
      ht.shown
  | refresh now other =>
    exact shown_of_map rfl (fun e => by split <;> rfl) (fun e _ hpin => by split <;> exact hpin)
      ht.shown
  | trim offset =>
    obtain ⟨e, he, heid, hpinned⟩ := mem_view.mp ht.shown
    exact mem_view.mpr ⟨e, (mem_trim_entries ht.wf).mpr ⟨he, Or.inl hpinned⟩, heid, hpinned⟩

theorem Statement.pins (h : t.Statement t') (ht : t.Pins id) : t'.Pins id :=
  ⟨h.wf ht.wf, h.shown ht⟩

theorem Pins.updateEntry (ht : t.Pins id) (now : ℤ) {other : ℤ} {pinned : Option Bool}
    (h : other = id → pinned ≠ some false) : (t.updateEntry now pinned other).Pins id := by
  refine ⟨updateEntry_wf ht.wf now pinned other, ?_⟩
  refine shown_of_map rfl (fun e => by split <;> rfl) (fun e heid hpin => ?_) ht.shown
  split
  · rename_i hother
    cases pinned with
    | none => exact hpin
    | some flag =>
      cases flag with
      | true => rfl
      | false => exact absurd rfl (h (hother.symm.trans heid))
  · exact hpin

theorem Pins.delEntries (ht : t.Pins id) {ids : List ℤ} (h : id ∉ ids) :
    (t.delEntries ids).Pins id := by
  refine ⟨delEntries_wf ht.wf ids, ?_⟩
  rw [view_delEntries ht.wf, List.mem_filter]
  exact ⟨ht.shown, by simpa using h⟩

end Pins

end Tables

namespace State
open Database

/-! ## Requests -/

section Requests
variable {id : ℤ} {a : Ambient} {s : State}

theorem update_pins {other : ℤ} {pinned : Option Bool} (h : other = id → pinned ≠ some false)
    (hs : s.db.Both (Pins id)) : (s.update a other pinned).2.db.Both (Pins id) := by
  simp only [update, databaseUpdateEntry]
  cases a.sql .updateEntry 0 with
  | true => exact ⟨hs.tables.updateEntry a.now h, hs.saved⟩
  | false => exact hs

theorem set_pins (ignore : Option SelectionName) (other : ℤ) (hs : s.db.Both (Pins id)) :
    (s.set a.sql ignore other).db.Both (Pins id) :=
  (set_execs a.sql ignore other s).both (fun _ _ => Statement.pins) hs

theorem entryDeleted_pins (fd : ℕ) (other : ℤ) (hs : s.db.Both (Pins id)) :
    (s.entryDeleted a fd other).db.Both (Pins id) := by
  unfold entryDeleted
  dsimp only
  split
  · exact set_pins (s := { s with id := -1 }) none (-1) hs
  · exact hs

theorem requestCallback_pins (fd : ℕ) {req : Request} (hreq : ¬ req.Drops id)
    (hs : s.db.Both (Pins id)) : (s.requestCallback a fd req).db.Both (Pins id) := by
  cases req with
  | setClipboard other =>
    simp only [requestCallback, serveSetClipboard]
    split
    · exact hs
    · rename_i other
      split
      · exact hs
      · have hupdated := @update_pins _ a _ other none
          (fun _ => Option.some_ne_none false |>.symm) (set_pins (a := a) none other hs)
        split <;> exact hupdated
  | deleteEntry other =>
    cases other with
    | none => exact hs
    | some other =>
      obtain ⟨hclear, hother⟩ := not_or.mp hreq
      have hdeleted : (databaseDeleteEntry (a.sql .delEntry 0) other s.db).2.Both (Pins id) := by
        cases a.sql .delEntry 0 with
        | false => exact hs
        | true =>
          have hkept : id ∉ [other] := fun hmem => hother (List.mem_singleton.mp hmem).symm
          exact ⟨hs.tables.delEntries hkept, hs.saved⟩
      simp only [requestCallback, serveDeleteEntry, if_neg hclear]
      split
      · exact hs
      · split <;> rename_i db he <;> rw [he] at hdeleted
        · exact hdeleted
        · exact entryDeleted_pins fd other (s := { s with db := db }) hdeleted
  | pinEntry other pin =>
    cases other with
    | none => exact hs
    | some other =>
      cases pin with
      | none => exact hs
      | some pin =>
        simp only [requestCallback, servePinEntry]
        split
        · exact hs
        · split
          · exact hs
          · rename_i flag hflag
            have hkept : other = id → some flag ≠ some false := by
              intro hother hfalse
              cases pin with
              | yes =>
                have hboth : some true = some false := hflag.trans hfalse
                cases hboth
              | no | toggle => exact hreq hother
              | other => cases hflag
            have hupdated := update_pins (a := a) hkept hs
            split <;> exact hupdated
  | subscribe events =>
    simp only [requestCallback, serveSubscribe]
    split
    · exact hs
    · split <;> exact hs
  | getHistoryLength =>
    simp only [requestCallback, serveGetHistoryLength]
    split <;> exact hs
  | getHistory start n =>
    simp only [requestCallback, serveGetHistory]
    split
    · split <;> exact hs
    · exact hs
  | getData other mimeType =>
    simp only [requestCallback, serveGetData]
    split
    · split
      · exact hs
      · split <;> exact hs
    · exact hs
  | getCurrent => exact hs
  | holdRequests n =>
    simp only [requestCallback, serveHoldRequests]
    split
    · exact hs
    · split <;> exact hs
  | invalid => exact hs

/-- What every request of a batch keeps, the batch keeps. -/
theorem handleRequests_pins (ambient : ℕ → Ambient) (fd : ℕ) {reqs : List Request}
    (hreqs : ∀ req ∈ reqs, ¬ req.Drops id) (n : ℕ) (hs : s.db.Both (Pins id)) :
    (s.handleRequests ambient fd n reqs).db.Both (Pins id) := by
  induction reqs generalizing n s with
  | nil => exact hs
  | cons req reqs ih =>
    refine ih (fun r hr => hreqs r (List.mem_cons_of_mem _ hr)) (n + 1) ?_
    exact requestCallback_pins fd (s := s.onClient fd fun c => { c with handlingReq := true })
      (hreqs req List.mem_cons_self) hs

end Requests

/-! ## Steps -/

/-- No request that is executed in the step may delete or unpin the entry. -/
def Spares (id : ℤ) (s : State) (i : Input) : Prop :=
  ∀ fd, ∀ x ∈ s.executed fd i, ¬ x.request.Drops id

/-- The entry is pinned where the next session finds it, and in view if that is where. -/
structure Protects (id : ℤ) (s : State) : Prop where
  live : s.config.persist = true → s.db.Both (Pins id)
  disk : s.config.persist = false → s.disk.Pins id

theorem Protects.file {id : ℤ} {s : State} (h : s.Protects id) : s.file.Pins id := by
  rw [State.file]
  split
  · rename_i hpersist
    exact (h.live hpersist).of_committed
  · rename_i hpersist
    exact h.disk (Bool.not_eq_true _ |>.mp hpersist)

theorem startup_protects {id : ℤ} {file : Tables} (h : file.Pins id) (config : Config)
    (a : Ambient) : (startup config a file).Protects id := by
  refine ⟨fun hpersist => ?_, fun _ => h⟩
  have hopened : (startup config a file).db =
      (databaseTrim (a.sql .trim 0) config.maxEntries ⟨file, none⟩).2 := by
    have hread : (if config.persist then file else Tables.empty) = file := if_pos hpersist
    rw [startup, hread, databaseInit]
  rw [hopened]
  exact (databaseTrim_execs (a.sql .trim 0) config.maxEntries ⟨file, none⟩).both
    (fun _ _ => Statement.pins) ⟨h, fun _ hnone => absurd hnone (Option.some_ne_none _).symm⟩

/-- What happens to the database decides in a session. -/
theorem Protects.session {id : ℤ} {s s' : State} (h : s.Protects id)
    (hconfig : s'.config = s.config) (hdisk : s'.disk = s.disk)
    (hdb : s.db.Both (Pins id) → s'.db.Both (Pins id)) : s'.Protects id := by
  refine ⟨fun hpersist => hdb (h.live (hconfig ▸ hpersist)), fun hpersist => ?_⟩
  rw [hdisk]
  exact h.disk (hconfig ▸ hpersist)

theorem step_protects {id : ℤ} {s : State} {i : Input} (hspares : s.Spares id i)
    (h : s.Protects id) : (step s i).Protects id := by
  have htransition := step_transition s i
  generalize step s i = s' at htransition ⊢
  cases htransition with
  | quiet hevent hsame => exact h.session hsame.config hsame.disk fun hdb => hsame.db ▸ hdb
  | @restarted config hevent => exact startup_protects h.file config (i.ambient 0)
  | @delivered name seat written timerOk hevent hdelivers =>
    have hsame := wsignalSelection_session (i.ambient 0) name written seat.mimeTypes seat.transient
      (s.withOffer name seat)
    have hexecs := wsignalSelection_execs (i.ambient 0) name written seat.mimeTypes seat.transient
      (s.withOffer name seat)
    exact h.session hsame.config hsame.disk fun hdb => hexecs.both (fun _ _ => Statement.pins) hdb
  | @served fd msg client hevent hclient =>
    have hsame := messageCallback_session i.ambient client msg s
    refine h.session hsame.config hsame.disk fun hdb => ?_
    cases msg with
    | none => exact hdb
    | some req =>
      have hfd : client.fd = fd := findClient_fd hclient
      have hbatch : ∀ req' ∈ batch client req, ¬ req'.Drops id := by
        intro req' hreq'
        have hexecuted := executed_message hevent hclient
        have hrequests : ((s.onClient fd (holdBack client req)).exchanges i.ambient fd 0
            (batch client req)).map Exchange.request = batch client req :=
          exchanges_request i.ambient (batch client req) 0
        rw [← hrequests, ← hexecuted] at hreq'
        obtain ⟨x, hx, rfl⟩ := List.mem_map.mp hreq'
        exact hspares fd x hx
      rw [messageCallback_eq, hfd]
      exact handleRequests_pins (s := s.onClient fd (holdBack client req)) i.ambient fd hbatch 0 hdb

end State

/-- An entry that is pinned in the history and in the file stays there, pinned and with its types
and data, as long as no request asks to delete or to unpin it: whatever is copied, whatever fails
and however often the daemon is started again. -/
theorem pinned_stays {s : State} (hs : Reachable s) {id : ℤ} (hfile : (id, true) ∈ s.file.view)
    (hshown : s.config.persist = true → (id, true) ∈ s.db.tables.view) {inputs : List Input}
    (hspares : Meets step (State.Spares id) s inputs) :
    let s' := run step s inputs
    (id, true) ∈ s'.file.view ∧ (s'.config.persist = true → (id, true) ∈ s'.db.tables.view) ∧
      (∀ m, m ∈ s'.file.getMimeTypes id ↔ m ∈ s.file.getMimeTypes id) ∧
      ∀ m, s'.file.getData id m = s.file.getData id m := by
  intro s'
  have hprotects : s.Protects id := by
    constructor
    · intro hpersist
      refine ⟨⟨hs.wf.db.tables, hshown hpersist⟩, fun t ht => ⟨hs.wf.db.saved t ht, ?_⟩⟩
      rwa [State.file, if_pos hpersist, Database.committed, ht] at hfile
    · intro hpersist
      refine ⟨hs.wf.disk, ?_⟩
      rwa [State.file, hpersist] at hfile
  have hprotected : s'.Protects id :=
    run_invariant (fun _ _ hx hi => State.step_protects hi hx) hprotects hspares
  have hexists : ∀ t : Tables, (id, true) ∈ t.view → t.idExists id = true := by
    intro t ht
    obtain ⟨e, he, heid, -⟩ := mem_view.mp ht
    exact idExists_iff.mpr ⟨e, he, heid⟩
  have hsame : s'.file.content id = s.file.content id :=
    (run_later hs inputs).same (id_lt_nextId_of_exists (hexists _ hfile))
      (record_archive (hexists _ hfile)) (record_archive (hexists _ hprotected.file.shown))
  refine ⟨hprotected.file.shown, fun hpersist => (hprotected.live hpersist).tables.shown,
    fun m => ?_, fun m => ?_⟩
  · rw [← content_isSome, hsame, content_isSome]
  · rw [← content_join, hsame, content_join]

theorem State.spares_of_silent {id : ℤ} {i : Input} (h : ∀ fd msg, i.event ≠ .message fd msg)
    (s : State) : s.Spares id i := by
  intro fd x hx
  unfold executed at hx
  split at hx
  · rename_i fd' req client hevent _
    exact absurd hevent (h fd' (some req))
  · cases hx

/-- A text is copied and pinned. -/
def textPinned : List Input :=
  textCopied ++ [.quiet (.connect 5), .quiet (.message 5 (some (.pinEntry (some 1) (some .yes))))]

/-- Another text is copied, and the next session keeps no entries but pinned ones. -/
def textKept : List Input :=
  copy (0, .regular) [(textPlain, [66])] ++ [.quiet (.restart { configInit with maxEntries := 0 })]

theorem textKept_silent : ∀ i ∈ textKept, ∀ fd msg, i.event ≠ .message fd msg := by
  intro i hi
  simp only [textKept, copy, offerEvents, List.map_cons, List.map_nil, List.cons_append,
    List.nil_append, List.mem_cons, List.not_mem_nil, or_false] at hi
  obtain rfl | rfl | rfl | rfl := hi <;> exact fun _ _ => Event.noConfusion

/-- Only the pinned text is left. -/
theorem textPinned_stays :
    let s := run step (boot configInit (.quiet 0)) textPinned
    let s' := run step s textKept
    (1, true) ∈ s.file.view ∧ s'.db.tables.view = [(1, true)] ∧
      (∀ m, m ∈ s'.file.getMimeTypes 1 ↔ m ∈ s.file.getMimeTypes 1) ∧
      ∀ m, s'.file.getData 1 m = s.file.getData 1 m := by
  intro s s'
  have hfile : (1, true) ∈ s.file.view := by decide +kernel
  have hshown : (1, true) ∈ s.db.tables.view := by decide +kernel
  have hs : Reachable s := (Reachable.boot configInit (.quiet 0)).run textPinned
  have hspares : Meets step (State.Spares 1) s textKept :=
    Meets.of_mem fun i hi t => State.spares_of_silent (textKept_silent i hi) t
  obtain ⟨-, -, htypes, hdata⟩ := pinned_stays hs hfile (fun _ => hshown) hspares
  exact ⟨hfile, by decide +kernel, htypes, hdata⟩

end Swayclip
