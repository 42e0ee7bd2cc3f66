import Swayclip.Daemon.Serving

/-! # What a step does to the history and the current entry

Only a restart, a delivered selection event and a request touch the database, the current
entry and the transient data. Each of the three is described here once, for runs in which
no database call fails.
-/

namespace Swayclip
open Library.Ranking Tables

def Event.isSelection : Event → Bool
  | .selection .. => true
  | _ => false

theorem verdict_move {dedup : Dedup} {hash : Digest} {t : Tables} {id pos : ℤ}
    (h : verdict dedup hash t = .move id pos) :
    ∃ e ∈ t.entries, e.hash = some hash ∧ e.id = id ∧
      pos = (rank Entry.sortIndex t.entries e.sortIndex : ℤ) ∧ pos ≠ 0 := by
  unfold verdict at h
  split at h
  · cases h
  · cases h
  · split at h <;> cases h
  · rename_i id' pos' hpos
    split at h
    · cases h
    · rename_i hne
      obtain ⟨rfl, rfl⟩ := Verdict.move.inj h
      obtain ⟨e, he, hhash, hid, hrank⟩ := entryHashPos_eq_some hpos
      exact ⟨e, he, hhash, hid, hrank, hne⟩

namespace State

/-- The same up to seats, clients and the toplevel. -/
structure SameCore (s' s : State) : Prop where
  config : s'.config = s.config
  db : s'.db = s.db
  disk : s'.disk = s.disk
  id : s'.id = s.id
  cleared : s'.cleared = s.cleared
  transient : s'.transient = s.transient

theorem SameCore.refl (s : State) : s.SameCore s := ⟨rfl, rfl, rfl, rfl, rfl, rfl⟩

theorem SameCore.trans {s s' s'' : State} (h : s''.SameCore s') (h' : s'.SameCore s) :
    s''.SameCore s :=
  ⟨h.config.trans h'.config, h.db.trans h'.db, h.disk.trans h'.disk, h.id.trans h'.id,
    h.cleared.trans h'.cleared, h.transient.trans h'.transient⟩

/-- A new offer on the selection reaches the selection callback. -/
structure Delivers (s : State) (name : SelectionName) (seat : Seat) : Prop where
  found : s.findSeat name.1 = some seat
  seatEnabled : seat.enabled = true
  enabled : (seat.sel name.2).enabled = true
  noSource : (seat.sel name.2).extDataSource = none
  unblocked : seat.blocked = false

/-- The state in which the selection callback is invoked. -/
def withOffer (name : SelectionName) (seat : Seat) (s : State) : State :=
  s.putSeat (seat.setSel name.2 { seat.sel name.2 with extDataOffer := true })

/-- An offer on the selection of the seat is received from. -/
def reaches (type : SelectionType) (seat : Seat) : Bool :=
  seat.enabled && (seat.sel type).enabled && (seat.sel type).extDataSource.isNone && !seat.blocked

theorem delivers_iff {s : State} {name : SelectionName} {seat : Seat} :
    Delivers s name seat ↔ s.findSeat name.1 = some seat ∧ reaches name.2 seat = true := by
  rw [reaches]
  simp only [Bool.and_eq_true, Option.isNone_iff_eq_none, Bool.not_eq_true']
  exact ⟨fun h => ⟨h.found, ⟨⟨h.seatEnabled, h.enabled⟩, h.noSource⟩, h.unblocked⟩,
    fun h => ⟨h.1, h.2.1.1.1, h.2.1.1.2, h.2.1.2, h.2.2⟩⟩

theorem step_delivers {s : State} {name : SelectionName} {seat : Seat} (h : Delivers s name seat)
    (written : ℕ → Option Bytes) (timerOk : Bool) (ambient : ℕ → Ambient) :
    step s ⟨.selection name (some written) timerOk, ambient⟩ =
      ((s.withOffer name seat).wsignalSelection (ambient 0) name written seat.mimeTypes
        seat.transient).clearMimeTypes name.1 := by
  have hname : seat.globalName = name.1 := findSeat_globalName h.found
  rw [step, handle, onSeat, h.found]
  simp [h.seatEnabled, selection, selectionEvent, h.enabled, h.noSource, h.unblocked, hname,
    withOffer]

/-- The event does not reach the selection callback. -/
def NotDelivered (s : State) (event : Event) : Prop :=
  ∀ name written timerOk seat, event = .selection name (some written) timerOk →
    ¬ Delivers s name seat

theorem notDelivered {s : State} {event : Event} (h : event.isSelection = false) :
    NotDelivered s event := by
  rintro name written timerOk seat rfl
  cases h

/-- What happens to the client with a descriptor while none is served: it may connect or go. -/
inductive ClientChange (event : Event) (fd : ℕ) (s s' : State) : Prop
  | same (h : s'.findClient fd = s.findClient fd)
  | connected (hevent : event = .connect fd) (hold : s.findClient fd = none)
      (hnew : s'.findClient fd = some (ipcAddClient fd))
  | gone (hevent : event = .disconnect fd) (hnew : s'.findClient fd = none)

theorem connect_clientChange (s : State) (n fd : ℕ) :
    ClientChange (.connect n) fd s (s.connect n) := by
  rw [connect]
  split
  · exact .same rfl
  · rename_i hnone
    by_cases hfd : n = fd
    · subst hfd
      exact .connected rfl hnone (by simp [findClient, ipcAddClient])
    · exact .same (by simp [findClient, ipcAddClient, hfd])

theorem disconnect_clientChange (s : State) (ambient : ℕ → Ambient) (n fd : ℕ) :
    ClientChange (.disconnect n) fd s (s.handle ambient (.disconnect n)) := by
  by_cases hfd : n = fd
  · subst hfd
    refine .gone rfl (List.find?_eq_none.mpr fun c hc => ?_)
    simpa using (List.mem_filter.mp hc).2
  · refine .same ?_
    rw [findClient, handle, List.find?_filter, findClient]
    congr 1
    funext c
    by_cases hc : c.fd = fd
    · simp [hc, Ne.symm hfd]
    · simp [hc]

/-- What a step can be. -/
inductive Transition (s : State) (i : Input) : State → Prop
  | quiet {s' : State} (hevent : NotDelivered s i.event) (h : s'.SameCore s)
      (hclients : ∀ fd, ClientChange i.event fd s s') : Transition s i s'
  | restarted {config : Config} (hevent : i.event = .restart config) :
      Transition s i (startup config (i.ambient 0) s.file)
  | delivered {name : SelectionName} {seat : Seat} {written : ℕ → Option Bytes} {timerOk : Bool}
      (hevent : i.event = .selection name (some written) timerOk) (h : Delivers s name seat) :
      Transition s i (((s.withOffer name seat).wsignalSelection (i.ambient 0) name written
        seat.mimeTypes seat.transient).clearMimeTypes name.1)
  | served {fd : ℕ} {msg : Option Request} {client : Client} (hevent : i.event = .message fd msg)
      (hclient : s.findClient fd = some client) :
      Transition s i (s.messageCallback i.ambient client msg)

theorem Transition.ofSeats {s s' : State} {i : Input} (hevent : NotDelivered s i.event)
    (h : s'.SameCore s) (hipc : s'.ipc = s.ipc) : Transition s i s' :=
  .quiet hevent h fun fd => .same (by rw [findClient, hipc, findClient])

theorem Transition.putSeat {s : State} {i : Input} (hevent : NotDelivered s i.event) (seat : Seat) :
    Transition s i (s.putSeat seat) :=
  .ofSeats hevent ⟨rfl, rfl, rfl, rfl, rfl, rfl⟩ rfl

theorem Transition.stay {s : State} {i : Input} (hevent : NotDelivered s i.event) :
    Transition s i s :=
  .ofSeats hevent (.refl s) rfl

theorem step_selection_transition (s : State) (name : SelectionName)
    (offer : Option (ℕ → Option Bytes)) (timerOk : Bool) (ambient : ℕ → Ambient) :
    Transition s ⟨.selection name offer timerOk, ambient⟩
      (step s ⟨.selection name offer timerOk, ambient⟩) := by
  by_cases hevent : NotDelivered s (.selection name offer timerOk)
  · rcases onSeat_cases name.1 (selection (ambient 0) name.2 offer timerOk) s with
      he | ⟨seat, hseat, hseatEnabled, he⟩ <;> rw [step, handle, he]
    · exact .stay hevent
    · rcases selection_cases (ambient 0) name.2 offer timerOk seat s with
        hs | ⟨written, rfl, henabled, hsource, hblocked, -⟩
      · rw [hs]
        exact .putSeat hevent _
      · exact absurd ⟨hseat, hseatEnabled, henabled, hsource, hblocked⟩
          (hevent name written timerOk seat rfl)
  · simp only [NotDelivered, not_forall, not_not] at hevent
    obtain ⟨name, written, timerOk, seat, he, h⟩ := hevent
    cases he
    rw [step_delivers h]
    exact .delivered rfl h

theorem step_transition (s : State) (i : Input) : Transition s i (step s i) := by
  obtain ⟨event, ambient⟩ := i
  cases event with
  | restart config => exact .restarted rfl
  | addSeat n seatName =>
    rw [step, handle, addSeat]
    split <;> exact .ofSeats (notDelivered rfl) ⟨rfl, rfl, rfl, rfl, rfl, rfl⟩ rfl
  | dataOffer n | offer n m | cancelled name current =>
    rcases onSeat_cases _ _ s with he | ⟨seat, -, -, he⟩ <;> rw [step, handle, he]
    · exact .stay (notDelivered rfl)
    · exact .putSeat (notDelivered rfl) _
  | nullTimer name ok =>
    rcases onSeat_cases name.1 (nullTimer (ambient 0) name.2 ok) s with he | ⟨seat, -, -, he⟩ <;>
      rw [step, handle, he]
    · exact .stay (notDelivered rfl)
    · rw [nullTimer]
      split
      · exact .putSeat (notDelivered rfl) _
      · exact .stay (notDelivered rfl)
  | selection name offer timerOk => exact step_selection_transition s name offer timerOk ambient
  | removeSeat n | toplevel tp =>
    exact .ofSeats (notDelivered rfl) ⟨rfl, rfl, rfl, rfl, rfl, rfl⟩ rfl
  | disconnect fd =>
    exact .quiet (notDelivered rfl) ⟨rfl, rfl, rfl, rfl, rfl, rfl⟩
      (disconnect_clientChange s ambient fd)
  | connect fd =>
    refine .quiet (notDelivered rfl) ?_ (connect_clientChange s fd)
    rw [step, handle, connect]
    split <;> exact ⟨rfl, rfl, rfl, rfl, rfl, rfl⟩
  | message fd msg =>
    rw [step, handle]
    split
    · exact .stay (notDelivered rfl)
    · rename_i client hclient
      exact .served rfl hclient

/-! ## What only a restart changes -/

/-- A session keeps its configuration, and does not look again at the file that it was started from.
A restart reads both anew. -/
theorem step_session (s : State) (i : Input) :
    (step s i).disk = s.disk ∧ (step s i).config = s.config ∨
      ∃ config, i.event = .restart config ∧ (step s i).disk = s.file ∧
        (step s i).config = config := by
  have htransition := step_transition s i
  generalize step s i = s' at htransition ⊢
  cases htransition with
  | quiet hevent h => exact Or.inl ⟨h.disk, h.config⟩
  | @restarted config hevent => exact Or.inr ⟨config, hevent, rfl, rfl⟩
  | @delivered name seat written =>
    have hsame := wsignalSelection_session (i.ambient 0) name written seat.mimeTypes seat.transient
      (s.withOffer name seat)
    exact Or.inl ⟨hsame.disk, hsame.config⟩
  | @served _ msg client =>
    have hsame := messageCallback_session i.ambient client msg s
    exact Or.inl ⟨hsame.disk, hsame.config⟩

theorem step_disk_of {P : Tables → Prop} {s : State} (i : Input) (hfile : P s.file)
    (hdisk : P s.disk) : P (step s i).disk := by
  rcases step_session s i with ⟨hsame, -⟩ | ⟨config, -, hfound, -⟩
  · rwa [hsame]
  · rwa [hfound]

/-- The mode stays the same if every configuration that is read has it. -/
theorem step_dedup {mode : Dedup} {s : State} {i : Input} (h : s.config.dedup = mode)
    (hrestart : ∀ config, i.event = .restart config → config.dedup = mode) :
    (step s i).config.dedup = mode := by
  rcases step_session s i with ⟨-, hsame⟩ | ⟨config, hevent, -, hread⟩
  · rwa [hsame]
  · rw [hread]
    exact hrestart config hevent

/-! ## No transaction stays open -/

/-- No database call fails, and the session goes on. -/
structure Undisturbed (i : Input) : Prop where
  sql : ∀ n, (i.ambient n).sql = allOk
  session : ∀ config, i.event ≠ .restart config

theorem effect_saved {a : Ambient} {x y : State} (h : Effect a x y) :
    y.db.saved = x.db.saved := by
  cases h with
  | client | emit | reset => rfl
  | set ignore id => exact set_saved ..
  | update id pinned =>
    simp only [update, databaseUpdateEntry]
    split <;> rename_i he <;> split at he <;> cases he <;> rfl
  | delete id => exact Database.exec_saved ..
  | clear => exact Database.exec_saved ..

theorem messageCallback_saved (ambient : ℕ → Ambient) (client : Client) (msg : Option Request)
    (s : State) : (s.messageCallback ambient client msg).db.saved = s.db.saved :=
  messageCallback_preserve (P := fun x => x.db.saved = s.db.saved) ambient
    (fun _ _ _ he hx => (effect_saved he).trans hx) client msg rfl

@[simp] theorem trim_saved (a : Ambient) (s : State) : (s.trim a).db.saved = s.db.saved := by
  simp only [trim, databaseTrim]
  split <;> rfl

theorem trim_tables_quiet {a : Ambient} (hsql : a.sql = allOk) (s : State) :
    (s.trim a).db.tables = (s.db.tables.trim s.config.maxEntries).2 := by
  rw [trim, hsql]
  rfl

/-! ## Selection events -/

/-- The state in which `wsignal_selection` reaches its trailing trim. -/
def beforeTrim (a : Ambient) (name : SelectionName) (written : ℕ → Option Bytes)
    (mimeTypes : List CString) (s : State) : State :=
  let db := (databaseDoTransaction (a.sql .beginImmediate 0) .immediate s.db).2
  { s.clearTransient with db := db }.storeSelection a name written mimeTypes

/-- Once the transaction is open, the callback gets to its trailing trim. -/
theorem wsignalSelection_eq {a : Ambient} {s : State} {mimeTypes : List CString}
    (hmime : mimeTypes ≠ [])
    (hbegin : (databaseDoTransaction (a.sql .beginImmediate 0) .immediate s.db).1 = true)
    (name : SelectionName) (written : ℕ → Option Bytes) :
    s.wsignalSelection a name written mimeTypes false =
      (s.beforeTrim a name written mimeTypes).trim a := by
  have hlength : mimeTypes.length ≠ 0 := fun h => hmime (List.length_eq_zero_iff.mp h)
  simp only [wsignalSelection, hlength, if_false, Bool.false_eq_true, beforeTrim, clearTransient]
  split <;> rename_i he <;> rw [he] at hbegin ⊢
  cases hbegin

/-- What an event leaves behind before the trim when no database call fails. -/
inductive Copied (a : Ambient) (name : SelectionName) (received : Option Content) (s : State) :
    State → Prop
  | failed (hreceived : received = none) : Copied a name received s { s with id := -1 }
  | ignored {content : Content} (hreceived : received = some content)
      (hverdict : verdict s.config.dedup content.hash s.db.tables = .ignore) :
      Copied a name received s s
  | moved {content : Content} {id pos : ℤ} (hreceived : received = some content)
      (hverdict : verdict s.config.dedup content.hash s.db.tables = .move id pos) :
      Copied a name received s (s.movedFront a name s.db.tables id pos)
  | added {content : Content} {t : Tables} {f : Attributes → Attributes}
      (hreceived : received = some content)
      (hverdict : verdict s.config.dedup content.hash s.db.tables = .add)
      (hadd : s.db.tables.addEntry a.now content = some t) :
      Copied a name received s (s.committed a name (mapAttributes s.db.tables.nextId f t)
        s.db.tables.nextId)

/-- Content that is ignored changes nothing. -/
theorem copied_ignored {a : Ambient} {name : SelectionName} {s s' : State} {content : Content}
    (h : Copied a name (some content) s s')
    (hverdict : verdict s.config.dedup content.hash s.db.tables = .ignore) : s' = s := by
  cases h with
  | failed hreceived => cases hreceived
  | ignored => rfl
  | moved hreceived hother | added hreceived hother =>
    obtain rfl := Option.some.inj hreceived
    rw [hother] at hverdict
    cases hverdict

theorem beforeTrim_copied {a : Ambient} {s : State} (hsql : a.sql = allOk)
    (hsaved : s.db.saved = none) (hwf : s.db.tables.WF) (name : SelectionName)
    (written : ℕ → Option Bytes) (mimeTypes : List CString) :
    Copied a name (receiveAll s.config written 0 mimeTypes) s.clearTransient
      (s.beforeTrim a name written mimeTypes) := by
  have hdb : s.db = ⟨s.db.tables, none⟩ := by rw [← hsaved]
  have hopen : (databaseDoTransaction (a.sql .beginImmediate 0) .immediate s.db).2 =
      ⟨s.db.tables, some s.db.tables⟩ := by
    rw [hsql, hdb]
    rfl
  have hclosed : { s.clearTransient with db := ⟨s.db.tables, none⟩ } = s.clearTransient := by
    rw [← hdb]
    rfl
  let s₁ : State := { s.clearTransient with db := ⟨s.db.tables, some s.db.tables⟩ }
  have hbefore : s.beforeTrim a name written mimeTypes =
      s₁.storeSelection a name written mimeTypes := by rw [beforeTrim, hopen]
  rw [hbefore]
  cases hreceived : receiveAll s.config written 0 mimeTypes with
  | none =>
    rw [storeSelection_failed (s := s₁) hsql rfl hwf hreceived]
    have hfailed : { s₁ with db := ⟨s.db.tables, none⟩, id := -1 } =
        { s.clearTransient with id := -1 } := by rw [← hclosed]
    rw [hfailed]
    exact .failed rfl
  | some content =>
    cases hverdict : verdict s.config.dedup (Content.hash content) s.db.tables with
    | ignore =>
      rw [storeSelection_ignored (s := s₁) hsql rfl hwf hreceived hverdict, hclosed]
      exact .ignored rfl hverdict
    | move id pos =>
      rw [storeSelection_moved (s := s₁) hsql rfl hwf hreceived hverdict]
      exact .moved rfl hverdict
    | add =>
      obtain ⟨t, f, hadd, hstore⟩ := @storeSelection_added a name written mimeTypes s₁ _ hsql
        rfl hwf content hreceived hverdict
      rw [hstore]
      exact .added rfl hverdict hadd

/-- What the callback leaves behind when no database call fails. -/
inductive Handled (a : Ambient) (name : SelectionName) (written : ℕ → Option Bytes)
    (mimeTypes : List CString) (transient : Bool) (s : State) : State → Prop
  | empty (hmime : mimeTypes = []) : Handled a name written mimeTypes transient s s
  | lost (hmime : mimeTypes ≠ []) (htransient : transient = true)
      (hreceived : receiveAll s.config written 0 mimeTypes = none) :
      Handled a name written mimeTypes transient s { s.clearTransient with id := -1 }
  | kept (hmime : mimeTypes ≠ []) (htransient : transient = true) {content : Content}
      (hreceived : receiveAll s.config written 0 mimeTypes = some content) :
      Handled a name written mimeTypes transient s
        ({ s with id := -1, transient := content }.set a.sql (some name) 0)
  | stored (hmime : mimeTypes ≠ []) (htransient : transient = false) {s' : State}
      (hcopied : Copied a name (receiveAll s.config written 0 mimeTypes) s.clearTransient s') :
      Handled a name written mimeTypes transient s (s'.trim a)

theorem wsignalSelection_handled {a : Ambient} {s : State} (hsql : a.sql = allOk)
    (hsaved : s.db.saved = none) (hwf : s.db.tables.WF) (name : SelectionName)
    (written : ℕ → Option Bytes) (mimeTypes : List CString) (transient : Bool) :
    Handled a name written mimeTypes transient s
      (s.wsignalSelection a name written mimeTypes transient) := by
  by_cases hmime : mimeTypes = []
  · rw [wsignalSelection, if_pos (by rw [hmime]; rfl)]
    exact .empty hmime
  · cases transient with
    | true =>
      have hlength : mimeTypes.length ≠ 0 := fun h => hmime (List.length_eq_zero_iff.mp h)
      rw [wsignalSelection, if_neg hlength, if_pos rfl]
      simp only [storeTransient]
      split <;> rename_i hreceived
      · exact .lost hmime rfl hreceived
      · exact .kept hmime rfl hreceived
    | false =>
      have hbegin : (databaseDoTransaction (a.sql .beginImmediate 0) .immediate s.db).1 = true := by
        rw [hsql]
        simp [databaseDoTransaction, hsaved]
      rw [wsignalSelection_eq hmime hbegin]
      exact .stored hmime rfl (beforeTrim_copied hsql hsaved hwf name written mimeTypes)

theorem copied_saved {a : Ambient} {name : SelectionName} {received : Option Content}
    {s s' : State} (h : Copied a name received s s') (hsaved : s.db.saved = none) :
    s'.db.saved = none := by
  cases h with
  | failed | ignored => exact hsaved
  | moved | added => exact set_saved ..

theorem handled_saved {a : Ambient} {name : SelectionName} {written : ℕ → Option Bytes}
    {mimeTypes : List CString} {transient : Bool} {s s' : State}
    (h : Handled a name written mimeTypes transient s s') (hsaved : s.db.saved = none) :
    s'.db.saved = none := by
  cases h with
  | empty | lost => exact hsaved
  | kept =>
    rw [set_saved]
    exact hsaved
  | stored hmime htransient hcopied =>
    rw [trim_saved]
    exact copied_saved (s := s.clearTransient) hcopied hsaved

theorem copied_wf {a : Ambient} {name : SelectionName} {received : Option Content} {s s' : State}
    (hwf : s.db.tables.WF) (h : Copied a name received s s') : s'.db.tables.WF := by
  cases h with
  | failed | ignored => exact hwf
  | moved => exact (movedFront_sameRows ..).wf (moveEntry_wf hwf ..)
  | added _ _ hadd => exact (committed_sameRows ..).wf (mapAttributes_wf (addEntry_wf hwf hadd) ..)

theorem startup_saved (config : Config) (a : Ambient) (disk : Tables) :
    (startup config a disk).db.saved = none := by
  simp only [startup, databaseInit, databaseTrim]
  split <;> rfl

/-- When no database call fails, every transaction is ended by the handler that began it. -/
theorem step_saved {s : State} {i : Input} (hsql : ∀ n, (i.ambient n).sql = allOk)
    (hwf : s.db.tables.WF) (hsaved : s.db.saved = none) : (step s i).db.saved = none := by
  have htransition := step_transition s i
  generalize step s i = s' at htransition ⊢
  cases htransition with
  | quiet hevent h => rw [h.db, hsaved]
  | restarted => exact startup_saved ..
  | @delivered name seat written timerOk hevent h =>
    have hhandled := wsignalSelection_handled (s := s.withOffer name seat) (hsql 0) hsaved hwf name
      written seat.mimeTypes seat.transient
    have hnone := handled_saved (s := s.withOffer name seat) hhandled hsaved
    exact hnone
  | served => rw [messageCallback_saved, hsaved]

end State

/-- A non-transient event whose data can be received is stored, and then the history trimmed. -/
theorem step_stores {s : State} (hwf : s.db.tables.WF) (hsaved : s.db.saved = none)
    {name : SelectionName} {seat : Seat} (hdelivers : State.Delivers s name seat)
    (hmime : seat.mimeTypes ≠ []) (htransient : seat.transient = false) {ambient : ℕ → Ambient}
    (hsql : (ambient 0).sql = allOk) {written : ℕ → Option Bytes} (timerOk : Bool)
    {content : Content} (hreceived : receiveAll s.config written 0 seat.mimeTypes = some content) :
    let before := (s.withOffer name seat).beforeTrim (ambient 0) name written seat.mimeTypes
    step s ⟨.selection name (some written) timerOk, ambient⟩ =
        (before.trim (ambient 0)).clearMimeTypes name.1 ∧
      State.Copied (ambient 0) name (some content) (s.withOffer name seat).clearTransient
        before := by
  have hbegin : (databaseDoTransaction ((ambient 0).sql .beginImmediate 0) .immediate
      (s.withOffer name seat).db).1 = true := by
    change (databaseDoTransaction _ _ s.db).1 = true
    rw [hsql]
    simp [databaseDoTransaction, hsaved]
  have hcopied := State.beforeTrim_copied (s := s.withOffer name seat) hsql hsaved hwf name written
    seat.mimeTypes
  change State.Copied _ _ (receiveAll s.config written 0 seat.mimeTypes) _ _ at hcopied
  rw [hreceived] at hcopied
  refine ⟨?_, hcopied⟩
  rw [State.step_delivers hdelivers, htransient, State.wsignalSelection_eq hmime hbegin]

open Library.Runs

/-- Between two steps of a run in which no database call fails, no transaction is open. -/
theorem run_saved (config : Config) (a : Ambient) (inputs : List Input)
    (hsql : ∀ i ∈ inputs, ∀ n, (i.ambient n).sql = allOk) :
    Reachable (run step (boot config a) inputs) ∧
      (run step (boot config a) inputs).db.saved = none := by
  apply run_invariant (C := fun _ i => ∀ n, (i.ambient n).sql = allOk)
    (I := fun s => Reachable s ∧ s.db.saved = none)
  · exact fun s i hs hi => ⟨hs.1.step i, State.step_saved hi hs.1.wf.db.tables hs.2⟩
  · exact ⟨.boot config a, State.startup_saved config a Tables.empty⟩
  · exact Meets.of_mem fun i hi _ => hsql i hi

theorem undisturbed_quiet {event : Event} (h : ∀ config, event ≠ .restart config) :
    State.Undisturbed (.quiet event) :=
  ⟨fun _ => rfl, h⟩

theorem undisturbed_offerEvents (seat : ℕ) (offered : List CString) :
    ∀ i ∈ offerEvents seat offered, State.Undisturbed i := by
  intro i hi
  rcases List.mem_cons.mp hi with rfl | hi
  · exact undisturbed_quiet nofun
  · obtain ⟨m, -, rfl⟩ := List.mem_map.mp hi
    exact undisturbed_quiet nofun

theorem undisturbed_copy (name : SelectionName) (content : Content) :
    ∀ i ∈ copy name content, State.Undisturbed i := by
  intro i hi
  rcases List.mem_append.mp hi with hi | hi
  · exact undisturbed_offerEvents _ _ i hi
  · rw [List.mem_singleton.mp hi]
    exact undisturbed_quiet nofun

end Swayclip
