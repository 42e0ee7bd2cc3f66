import Swayclip.Daemon.Tracking

/-! # A client that mirrors the history

A client that knows the history at one moment and folds the events it is sent from then on
holds the history at every later moment. The events of one handler and what the handler does
to the tables are compared step by step.
-/

namespace Swayclip
open Library.Ranking Library.Runs Tables

/-- The history as a client holds it: ids with pin flags, front first. -/
abbrev History := List (ℤ × Bool)

/-- What a client does with an event. A move is checked against the entry at the old position. -/
def foldEvent (msg : EventMsg) (h : History) : Option History :=
  match msg with
  | .entryAdd id => some ((id, false) :: h)
  | .entryDelete id => some (if id = -1 then [] else h.filter (fun r => r.1 ≠ id))
  | .entryUpdate _ _ none => some h
  | .entryUpdate id _ (some pinned) =>
    some (h.map (fun r => if r.1 = id then (r.1, pinned) else r))
  | .entryMove id oldPos newPos =>
    match h[oldPos.toNat]? with
    | none => none
    | some r =>
      if r.1 = id ∧ 0 ≤ oldPos ∧ 0 ≤ newPos then
        some ((h.eraseIdx oldPos.toNat).insertIdx newPos.toNat r)
      else none
  | .entryState .. => some h

def foldEvents (h : History) (msgs : List EventMsg) : Option History :=
  msgs.foldlM (fun h msg => foldEvent msg h) h

@[simp] theorem foldEvents_nil (h : History) : foldEvents h [] = some h := rfl

theorem foldEvents_append (h : History) (msgs more : List EventMsg) :
    foldEvents h (msgs ++ more) = (foldEvents h msgs).bind (fun h => foldEvents h more) :=
  List.foldlM_append

theorem foldEvents_concat {h h' h'' : History} {msgs : List EventMsg} {msg : EventMsg}
    (hmsgs : foldEvents h msgs = some h') (hmsg : foldEvent msg h' = some h'') :
    foldEvents h (msgs ++ [msg]) = some h'' := by
  rw [foldEvents_append, hmsgs]
  simp [foldEvents, hmsg]

/-- Subscribed to the four kinds of events that a mirror needs. -/
def Client.Mirrors (client : Client) : Prop :=
  ∀ flag ∈ [EventFlag.entryAdd, .entryDelete, .entryMove, .entryUpdate], flag ∈ client.events

/-- A client that fails to follow a move holds nothing. -/
def historyFold : Fold (Option History) where
  flags := [.entryAdd, .entryDelete, .entryMove, .entryUpdate]
  next h msg := h.bind (foldEvent msg)
  other h msg hmsg := by
    cases msg with
    | entryState id state => exact Option.bind_fun_some h
    | _ => simp [EventMsg.flag] at hmsg

theorem historyFold_after (h : Option History) (msgs : List EventMsg) :
    historyFold.after h msgs = h.bind (fun h => foldEvents h msgs) := by
  induction msgs generalizing h with
  | nil => exact (Option.bind_fun_some h).symm
  | cons msg msgs ih =>
    change historyFold.after (h.bind (foldEvent msg)) msgs = _
    rw [ih, Option.bind_assoc]
    rfl

namespace State

/-- The mirror of the client holds `h`: so it does if it held `known` when `k` events had been
sent to it, and has folded all events since. -/
def Follows (fd : ℕ) (known : History) (k : ℕ) (h : History) (s : State) : Prop :=
  ∃ c, s.findClient fd = some c ∧ c.Mirrors ∧ k ≤ c.sent.length ∧
    foldEvents known (c.sent.drop k) = some h

theorem follows_iff {fd : ℕ} {known : History} {k : ℕ} {h : History} {s : State} :
    s.Follows fd known k h ↔ s.Tracks historyFold fd (some known) k (some h) := by
  simp only [Tracks, historyFold_after]
  exact Iff.rfl

/-- The history, for a client that may have lost it. -/
def historyView (s : State) : Option History := some s.db.tables.view

/-- What the client holds is the history. -/
def MirroredBy (fd : ℕ) (known : History) (k : ℕ) (s : State) : Prop :=
  s.Follows fd known k s.db.tables.view ∧ s.ReadyFor fd

/-- The flag that delays the events of the client. -/
def handling (s : State) (fd : ℕ) : Option Bool := (s.findClient fd).map Client.handlingReq

/-- What holds between two steps: every event emitted has been enqueued. -/
structure Mirroring (fd : ℕ) (known : History) (k : ℕ) (s : State) : Prop where
  mirrored : s.MirroredBy fd known k
  closed : s.handling fd ≠ some true

theorem mirroring_iff {fd : ℕ} {known : History} {k : ℕ} {s : State} (h : Reachable s) :
    s.Mirroring fd known k ↔ s.Tracks historyFold fd (some known) k s.historyView := by
  refine ⟨fun hs => follows_iff.mp hs.mirrored.1, fun hs => ⟨⟨follows_iff.mpr hs, ?_⟩, ?_⟩⟩
  · exact readyFor_of_reachable h
  · intro hflag
    obtain ⟨c, hc, htrue⟩ := Option.map_eq_some_iff.mp hflag
    rw [(idle_of_reachable h hc).handlingReq] at htrue
    cases htrue

/-! ## What is told about the history -/

/-- `set` tells about states only. -/
theorem foldEvents_stateEvents (h : History) (old new : ℤ) :
    foldEvents h (stateEvents old new) = some h := by
  rw [stateEvents]
  split <;> split <;> rfl

theorem foldEvents_update (h : History) (id : ℤ) (time : Option ℤ) (pinned : Option Bool) :
    foldEvents h [.entryUpdate id time pinned] =
      some (h.map (fun r => if r.1 = id then (r.1, pinned.getD r.2) else r)) := by
  cases pinned with
  | none => simp [foldEvents, foldEvent]
  | some flag => simp [foldEvents, foldEvent]

/-- The ids that a trim deletes are reported one by one. -/
theorem foldEvents_deleteAll (h : History) (ids : List ℤ) (hids : ∀ id ∈ ids, id ≠ -1) :
    foldEvents h (ids.map .entryDelete) = some (h.filter (fun r => r.1 ∉ ids)) := by
  induction ids generalizing h with
  | nil => simp
  | cons id ids ih =>
    have hid : id ≠ -1 := hids id List.mem_cons_self
    have hfilter : (h.filter (fun r => r.1 ≠ id)).filter (fun r => r.1 ∉ ids) =
        h.filter (fun r => r.1 ∉ id :: ids) := by
      rw [List.filter_filter]
      exact List.filter_congr fun r _ => by simp [Bool.and_comm]
    change (foldEvent (.entryDelete id) h).bind (fun h => foldEvents h (ids.map .entryDelete)) = _
    rw [foldEvent, if_neg hid, Option.bind_some,
      ih _ fun i hi => hids i (List.mem_cons_of_mem _ hi), hfilter]

theorem view_update {a : Ambient} (hsql : a.sql = allOk) (id : ℤ) (pinned : Option Bool)
    (s : State) : (s.update a id pinned).2.db.tables.view =
      s.db.tables.view.map (fun r => if r.1 = id then (r.1, pinned.getD r.2) else r) := by
  rw [update_eq hsql]
  exact view_updateEntry ..

theorem historyFaithful : Faithful historyFold historyView where
  core s s' hview _ := congrArg some hview
  madeCurrent a s id hsql := by
    rw [historyFold_after, historyView, Option.bind_some, foldEvents_append,
      foldEvents_stateEvents, Option.bind_some, foldEvents_update, historyView, view_update hsql,
      (set_sameRows ..).view]
  deleted s s' id hwf hid hview _ := by
    rw [historyFold_after, historyView, Option.bind_some, historyView, hview, view_delEntries hwf]
    simp [foldEvents, foldEvent, hid]
  cleared s s' hview _ := by
    rw [historyFold_after, historyView, Option.bind_some, historyView, hview]
    rfl
  pinned a s id flag hsql := by
    rw [historyFold_after, historyView, Option.bind_some, foldEvents_update, historyView,
      view_update hsql]

/-- The old position is the place in the history that the entry leaves. -/
theorem foldEvent_move {t : Tables} (hwf : t.WF) (now : ℤ) {e : Entry} (he : e ∈ t.entries)
    {pos : ℤ} (hpos : pos = (rank Entry.sortIndex t.entries e.sortIndex : ℤ)) :
    foldEvent (.entryMove e.id pos 0) t.view = some (t.moveEntry now e.id).view := by
  have hplace : t.view[pos.toNat]? = some (e.id, e.pinned) := by
    rw [hpos, Int.toNat_natCast]
    exact view_getElem_rank hwf he
  have hnonneg : 0 ≤ pos := by omega
  have hdistinct : Distinct Prod.fst t.view := view_fst_nodup hwf
  rw [foldEvent, hplace, view_moveEntry hwf now he]
  simp only [hnonneg, true_and, if_true, le_refl, Int.toNat_zero, List.insertIdx_zero]
  rw [hdistinct.eraseIdx_eq_filter hplace]

section Selection
variable (fd : ℕ) {a : Ambient} {s s' : State}

/-- What an event leaves behind before the trim is told. -/
theorem copied_told {name : SelectionName} {received : Option Content} (hwf : s.db.tables.WF)
    (h : Copied a name received s s') : ∃ msgs, Informs historyFold fd msgs s s' ∧
      foldEvents s.db.tables.view msgs = some s'.db.tables.view := by
  cases h with
  | failed => exact ⟨[], .of_ipc rfl, rfl⟩
  | ignored => exact ⟨[], .of_ipc rfl, rfl⟩
  | @moved content id pos hreceived hverdict =>
    obtain ⟨e, he, -, rfl, hpos, -⟩ := verdict_move hverdict
    refine ⟨_, informs_movedFront historyFold fd a name _ e.id pos s, ?_⟩
    rw [foldEvents_append, (movedFront_sameRows a name s.db.tables e.id pos s).view]
    have hmove : foldEvents s.db.tables.view
        [.entryUpdate e.id (some a.now) none, .entryMove e.id pos 0] =
          some (s.db.tables.moveEntry a.now e.id).view := by
      have hupdate :
          foldEvents s.db.tables.view [.entryUpdate e.id (some a.now) none] = some _ := rfl
      exact foldEvents_concat hupdate (foldEvent_move hwf a.now he hpos)
    rw [hmove, Option.bind_some, foldEvents_stateEvents]
  | @added content t f hreceived hverdict hadd =>
    refine ⟨_, informs_committed historyFold fd a name _ _ s, ?_⟩
    rw [(committed_sameRows ..).view, view_mapAttributes, view_addEntry hwf hadd]
    exact foldEvents_stateEvents _ s.id s.db.tables.nextId

theorem trim_told (hsql : a.sql = allOk) (hwf : s.db.tables.WF) :
    ∃ msgs, Informs historyFold fd msgs s (s.trim a) ∧
      foldEvents s.db.tables.view msgs = some (s.trim a).db.tables.view := by
  refine ⟨_, informs_trim historyFold fd hsql s, ?_⟩
  rw [foldEvents_deleteAll, trim_tables_quiet hsql, trim_tables, view_delEntries hwf]
  intro id hid
  obtain ⟨e, he, rfl, -⟩ := (mem_trim_ids hwf).mp hid
  have := hwf.idPos e he
  omega

theorem handled_told {name : SelectionName} {written : ℕ → Option Bytes}
    {mimeTypes : List CString} {transient : Bool} (hsql : a.sql = allOk) (hwf : s.db.tables.WF)
    (h : Handled a name written mimeTypes transient s s') :
    ∃ msgs, Informs historyFold fd msgs s s' ∧
      foldEvents s.db.tables.view msgs = some s'.db.tables.view := by
  cases h with
  | empty => exact ⟨[], .of_ipc rfl, rfl⟩
  | lost => exact ⟨[], .of_ipc rfl, rfl⟩
  | @kept _ _ content =>
    refine ⟨_, (informs_set historyFold fd a.sql (some name) 0 _).congr_left rfl, ?_⟩
    rw [(set_sameRows ..).view]
    exact foldEvents_stateEvents ..
  | @stored hmime htransient s'' hcopied =>
    obtain ⟨msgs, hinforms, hfold⟩ := copied_told fd (s := s.clearTransient) hwf hcopied
    obtain ⟨more, hmore, hfold'⟩ :=
      trim_told fd hsql (copied_wf (s := s.clearTransient) hwf hcopied)
    refine ⟨_, (hinforms.congr_left rfl).trans hmore, ?_⟩
    rw [foldEvents_append]
    exact (congrArg (fun h => h.bind (fun h => foldEvents h more)) hfold).trans hfold'

end Selection

theorem historyReports : Reports historyFold historyView (fun _ _ => True) where
  delivered fd s i name seat written timerOk hevent hdelivers hsql hwf hsaved := by
    obtain ⟨msgs, hinforms, hfold⟩ := handled_told fd (s := s.withOffer name seat) hsql hwf
      (wsignalSelection_handled (s := s.withOffer name seat) hsql hsaved hwf name written
        seat.mimeTypes seat.transient)
    refine ⟨_, hinforms.congr_left rfl, iff_true_intro ?_⟩
    rw [historyFold_after, historyView, Option.bind_some]
    exact hfold
  other _ _ _ := trivial

/-! ## Steps -/

/-- The request, if it is the client's, leaves it subscribed. -/
def KeepsEvents (req : Request) : Prop :=
  ∀ args flags, req = .subscribe (some args) → subscribeEvents args [] = .ok flags →
    ∀ flag ∈ [EventFlag.entryAdd, .entryDelete, .entryMove, .entryUpdate], flag ∈ flags

/-- The session goes on, and the client stays connected and subscribed. -/
structure Continues (fd : ℕ) (s : State) (i : Input) : Prop where
  undisturbed : Undisturbed i
  connected : i.event ≠ .disconnect fd
  keeps : ∀ client req, i.event = .message fd (some req) → s.findClient fd = some client →
    ∀ r ∈ batch client req, KeepsEvents r

section Steps
variable {fd : ℕ} {known : History} {k : ℕ} {s : State}

/-- From any point of the batch to the end of the message. -/
theorem messageCallback_follows {ambient : ℕ → Ambient} (hsql : ∀ n, (ambient n).sql = allOk)
    {client : Client} {req : Request} {n : ℕ} (hwf : s.db.WF)
    (hkeeps : ∀ r ∈ (batch client req).drop n, KeepsEvents r)
    (hs : (s.serving ambient client req n).Follows client.fd known k
      (s.serving ambient client req n).db.tables.view) :
    (s.messageCallback ambient client (some req)).Follows client.fd known k
      (s.messageCallback ambient client (some req)).db.tables.view :=
  follows_iff.mpr (historyFaithful.messageCallback hsql hwf hkeeps (follows_iff.mp hs))

theorem Continues.staysSubscribed {i : Input} (h : Continues fd s i) :
    StaysSubscribed historyFold.flags fd s i :=
  ⟨h.undisturbed, h.connected, h.keeps⟩

theorem step_mirroring {i : Input} (h : Reachable s) (hsaved : s.db.saved = none)
    (hi : Continues fd s i) (hs : s.Mirroring fd known k) : (step s i).Mirroring fd known k := by
  obtain ⟨b, hb, hview⟩ := historyFaithful.step historyReports h hsaved hi.staysSubscribed
    ((mirroring_iff h).mp hs)
  rw [mirroring_iff (h.step i), ← hview.mpr trivial]
  exact hb

end Steps

end State

/-- A client that knows the history at some moment at which it is subscribed, be it between two
requests that are served together, and folds the events that are emitted to it from then on, holds
the history after every later step, where all of them have been enqueued. -/
theorem mirror_holds_history (config : Config) (a : Ambient) {earlier inputs : List Input}
    (hearlier : ∀ i ∈ earlier, ∀ n, (i.ambient n).sql = allOk) {fd n : ℕ} {client c₀ : Client}
    (hclient : (run step (boot config a) earlier).findClient fd = some client) {req : Request}
    (ambient : ℕ → Ambient) (hsql : ∀ n, (ambient n).sql = allOk)
    (hmoment : ((run step (boot config a) earlier).serving ambient client req n).findClient fd =
      some c₀) (hsubscribed : c₀.Mirrors)
    (hkeeps : ∀ r ∈ (State.batch client req).drop n, State.KeepsEvents r)
    (hinputs : Meets step (State.Continues fd)
      (run step (boot config a) (earlier ++ [⟨.message fd (some req), ambient⟩])) inputs) :
    let s := (run step (boot config a) earlier).serving ambient client req n
    let s' := run step (boot config a) (earlier ++ ⟨.message fd (some req), ambient⟩ :: inputs)
    ∃ c, s'.findClient fd = some c ∧ c.pendingEvents = [] ∧
      foldEvents s.db.tables.view (c.enqueued.drop c₀.sent.length) = some s'.db.tables.view := by
  intro s s'
  obtain ⟨hreach, hsaved⟩ := run_saved config a
    (earlier ++ [⟨.message fd (some req), ambient⟩]) (by
      simp only [List.mem_append, List.mem_singleton]
      rintro i (hi | rfl)
      · exact hearlier i hi
      · exact hsql)
  obtain rfl := State.findClient_fd hclient
  have hstep : run step (boot config a) (earlier ++ [⟨.message client.fd (some req), ambient⟩]) =
      (run step (boot config a) earlier).messageCallback ambient client (some req) := by
    rw [run_append, run_cons, run_nil, step, State.handle, hclient]
  have hend : s' = run step (run step (boot config a)
      (earlier ++ [⟨.message client.fd (some req), ambient⟩])) inputs := by
    rw [← run_append, List.append_assoc, List.singleton_append]
  have hknown : s.Follows client.fd s.db.tables.view c₀.sent.length s.db.tables.view :=
    ⟨c₀, hmoment, hsubscribed, le_rfl, by rw [List.drop_length, foldEvents_nil]⟩
  have hserved := State.messageCallback_follows hsql (run_saved config a earlier hearlier).1.wf.db
    hkeeps hknown
  rw [← hstep] at hserved
  obtain ⟨hreach', -, hmirroring⟩ := run_invariant
    (I := fun x => Reachable x ∧ x.db.saved = none ∧ x.Mirroring client.fd s.db.tables.view
      c₀.sent.length)
    (fun x i hx hi => ⟨hx.1.step i,
      State.step_saved hi.undisturbed.sql hx.1.wf.db.tables hx.2.1,
      State.step_mirroring hx.1 hx.2.1 hi hx.2.2⟩)
    ⟨hreach, hsaved, (State.mirroring_iff hreach).mpr (State.follows_iff.mp hserved)⟩ hinputs
  rw [← hend] at hreach' hmirroring
  obtain ⟨c, hc, -, -, hfold⟩ := hmirroring.mirrored.1
  have hpending : c.pendingEvents = [] := (State.idle_of_reachable hreach' hc).pendingEvents
  have hsent : c.sent = c.enqueued := by rw [Client.sent, hpending, List.append_nil]
  rw [hsent] at hfold
  exact ⟨c, hc, hpending, hfold⟩

/-! ## A client that pins what it has subscribed to -/

theorem continues_others {fd : ℕ} {i : Input} (hi : ∀ n, (i.ambient n).sql = allOk)
    (hevent : i.event.sparesClient fd = true) (s : State) : State.Continues fd s i := by
  obtain ⟨hundisturbed, hconnected, hkeeps⟩ := staysSubscribed_others historyFold.flags hi hevent s
  exact ⟨hundisturbed, hconnected, hkeeps⟩

/-- A text is in the history, and a client has asked to be served two requests at once, of which
the first is to subscribe. -/
def heldSubscription : List Input :=
  [.quiet (.addSeat 0 seat0), .quiet (.connect 0), .quiet (.connect 1)] ++
    copy (0, .regular) [(textPlain, [65])] ++
    [.quiet (.message 0 (some (.holdRequests (some 2)))),
      .quiet (.message 0 (some (.subscribe (some [.flag .entryAdd, .flag .entryDelete,
        .flag .entryMove, .flag .entryUpdate]))))]

/-- The second request. -/
def pinText : Request := .pinEntry (some 1) (some .yes)

/-- Another text is copied, the first one once more, and a second client deletes the other. -/
def copiedAndDeleted : List Input :=
  copy (0, .regular) [(textPlain, [66])] ++ copy (0, .regular) [(textPlain, [65])] ++
    [.quiet (.message 1 (some (.deleteEntry (some 2))))]

theorem heldSubscription_sql : ∀ i ∈ heldSubscription, ∀ n, (i.ambient n).sql = allOk := by
  simp only [heldSubscription, List.forall_mem_append, List.forall_mem_cons, List.not_mem_nil,
    false_implies, implies_true, and_true]
  exact ⟨⟨⟨fun _ => rfl, fun _ => rfl, fun _ => rfl⟩, fun i hi => (undisturbed_copy _ _ i hi).sql⟩,
    fun _ => rfl, fun _ => rfl⟩

theorem copiedAndDeleted_sql : ∀ i ∈ copiedAndDeleted, ∀ n, (i.ambient n).sql = allOk := by
  simp only [copiedAndDeleted, List.forall_mem_append, List.forall_mem_cons, List.not_mem_nil,
    false_implies, implies_true, and_true]
  exact ⟨⟨fun i hi => (undisturbed_copy _ _ i hi).sql, fun i hi => (undisturbed_copy _ _ i hi).sql⟩,
    fun _ => rfl⟩

/-- What the client is told after its subscription takes what it knew then to the history. -/
theorem copiedAndDeleted_mirrored :
    let s := run step (boot configInit (.quiet 0))
      (heldSubscription ++ ⟨.message 0 (some pinText), fun _ => .quiet 0⟩ :: copiedAndDeleted)
    ∃ c, s.findClient 0 = some c ∧ c.pendingEvents = [] ∧
      foldEvents [(1, false)] c.enqueued = some s.db.tables.view := by
  obtain ⟨client, hclient⟩ : ∃ client, (run step (boot configInit (.quiet 0))
      heldSubscription).findClient 0 = some client :=
    Option.isSome_iff_exists.mp (by decide +kernel)
  have hheld : ∀ client ∈ (run step (boot configInit (.quiet 0)) heldSubscription).findClient 0,
      client.hold = 1 ∧ client.holdArr.length = 1 := by decide +kernel
  have hserving : ∀ client ∈ (run step (boot configInit (.quiet 0)) heldSubscription).findClient 0,
      let s := (run step (boot configInit (.quiet 0)) heldSubscription).serving
        (fun _ => .quiet 0) client pinText 1
      s.db.tables.view = [(1, false)] ∧ (s.findClient 0).isSome = true ∧
        ∀ c ∈ s.findClient 0, c.sent.length = 0 ∧
          ∀ flag ∈ [EventFlag.entryAdd, .entryDelete, .entryMove, .entryUpdate],
            flag ∈ c.events := by
    decide +kernel
  obtain ⟨hhold, hlength⟩ := hheld client hclient
  obtain ⟨hview, hsome, hsent⟩ := hserving client hclient
  obtain ⟨c₀, hc₀⟩ := Option.isSome_iff_exists.mp hsome
  have hrest : (State.batch client pinText).drop 1 = [pinText] := by
    simp [State.batch, hhold, hlength]
  have hmirror := mirror_holds_history configInit (.quiet 0) heldSubscription_sql hclient
    (fun _ => .quiet 0) (n := 1) (fun _ => rfl) hc₀ (hsent c₀ hc₀).2
    (by
      rw [hrest]
      rintro r hr args flags rfl
      simp [pinText] at hr)
    (Meets.of_mem fun i hi s => continues_others (copiedAndDeleted_sql i hi)
      (by revert i; decide +kernel) s)
  obtain ⟨c, hc, hpending, hfold⟩ := hmirror
  rw [hview, (hsent c₀ hc₀).1, List.drop_zero] at hfold
  exact ⟨c, hc, hpending, hfold⟩

end Swayclip
