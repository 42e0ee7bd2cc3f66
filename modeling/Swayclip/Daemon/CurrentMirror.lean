import Swayclip.Daemon.CurrentEntry
import Swayclip.Daemon.Tracking

/-! # A client that mirrors the current entry

A client that knows the current entry at one moment and folds the state and delete events from
then on follows every request. It misses the places where the id is set to `-1` without an
event, and holds nothing after the current entry has been trimmed away under the daemon.
-/

namespace Swayclip
open Library.Runs Tables

/-- What a client makes of an event. -/
def foldCurrent (current : Option ℤ) : EventMsg → Option ℤ
  | .entryState id true => some id
  | .entryState id false => if current = some id then none else current
  | .entryDelete id => if id = -1 ∨ current = some id then none else current
  | _ => current

def currentFold : Fold (Option ℤ) where
  flags := [.entryState, .entryDelete]
  next := foldCurrent
  other current msg hmsg := by
    cases msg with
    | entryState | entryDelete => simp [EventMsg.flag] at hmsg
    | _ => rfl

namespace State

/-- The current entry; the transient one does not count, since no event tells about it. -/
def current (s : State) : Option ℤ := if s.id > 0 then some s.id else none

theorem current_of_nonpos {s : State} (h : s.id ≤ 0) : s.current = none :=
  if_neg (by omega)

theorem current_of_pos {s : State} (h : 0 < s.id) : s.current = some s.id := if_pos h

theorem current_congr {s s' : State} (h : s'.id = s.id) : s'.current = s.current := by
  rw [current, h, current]

theorem current_eq_none_iff {s : State} : s.current = none ↔ s.id ≤ 0 := by
  rw [current]
  split <;> simp <;> omega

/-- `set` tells exactly what it does to the current entry. -/
theorem after_stateEvents {s s' : State} (id : ℤ) (hid : s'.id = id) :
    currentFold.after s.current (stateEvents s.id id) = s'.current := by
  subst hid
  by_cases hold : s.id > 0
  · by_cases hnew : s'.id > 0
    · simp [stateEvents, hold, hnew, current, Fold.after, currentFold, foldCurrent]
    · simp [stateEvents, hold, hnew, current, Fold.after, currentFold, foldCurrent]
  · by_cases hnew : s'.id > 0
    · simp [stateEvents, hold, hnew, current, Fold.after, currentFold, foldCurrent]
    · simp [stateEvents, hold, hnew, current]

/-- The ids that a trim deletes are reported one by one. -/
theorem after_deleteAll (current : Option ℤ) (ids : List ℤ) (hids : ∀ id ∈ ids, id ≠ -1) :
    currentFold.after current (ids.map .entryDelete) = current.filter (fun id => id ∉ ids) := by
  induction ids generalizing current with
  | nil => cases current <;> simp [Option.filter]
  | cons id ids ih =>
    have hid : id ≠ -1 := hids id List.mem_cons_self
    change currentFold.after (foldCurrent current (.entryDelete id)) (ids.map .entryDelete) = _
    rw [ih _ fun i hi => hids i (List.mem_cons_of_mem _ hi), foldCurrent]
    cases current with
    | none => simp
    | some i =>
      by_cases hi : i = id
      · simp [hid, hi, Option.filter]
      · simp [hid, hi, Option.filter]

theorem currentFaithful : Faithful currentFold current where
  core _ _ _ hid := current_congr hid
  madeCurrent a s id hsql := by
    have hset : currentFold.after s.current (stateEvents s.id id) = (s.set a.sql none id).current :=
      after_stateEvents id (set_id ..)
    rw [Fold.after_append, hset, update_eq hsql]
    rfl
  deleted s s' id _ hid _ hnew := by
    change foldCurrent s.current (.entryDelete id) = s'.current
    rw [foldCurrent, current, current, hnew]
    by_cases hcurrent : id = s.id
    · subst hcurrent
      simp
    · by_cases hpos : s.id > 0
      · simp [hid, hcurrent, hpos, Ne.symm hcurrent]
      · simp [hcurrent, hpos]
  cleared s s' _ hnew := by
    rw [current, current, hnew]
    rfl
  pinned a s id flag hsql := by
    rw [update_eq hsql]
    rfl

/-! ## Selection events -/

/-- The trim deletes no entry that the mirror holds as the current one. -/
def TellsEntry (s : State) : Verdict → Prop
  | .ignore => s.id ∉ (s.db.tables.trim s.config.maxEntries).1
  | v => s.KeepsEntry v

/-- If this is an event to be received, the id is not replaced by `-1` without an event unless
the trim happens to delete the entry, and not kept by the daemon when it does. -/
def TellsCurrent (s : State) (i : Input) : Prop :=
  ∀ name seat written timerOk, i.event = .selection name (some written) timerOk →
    Delivers s name seat → seat.mimeTypes ≠ [] →
    if seat.transient then s.id ≤ 0
    else match receiveAll s.config written 0 seat.mimeTypes with
      | none => s.id ≤ 0 ∨ s.id ∈ (s.db.tables.trim s.config.maxEntries).1
      | some content => s.TellsEntry (verdict s.config.dedup (Content.hash content) s.db.tables)

section Selection
variable (fd : ℕ) {a : Ambient} {s s' : State} {name : SelectionName}

/-- What the trim tells a client that holds `current` and, after it, holds the current entry. -/
theorem trim_tells (hsql : a.sql = allOk) (hwf : s.db.tables.WF) (current : Option ℤ) :
    ∃ msgs, Informs currentFold fd msgs s (s.trim a) ∧
      currentFold.after current msgs =
        current.filter (fun id => id ∉ (s.db.tables.trim s.config.maxEntries).1) := by
  refine ⟨_, informs_trim currentFold fd hsql s, after_deleteAll _ _ fun id hid => ?_⟩
  obtain ⟨e, he, rfl, -⟩ := (mem_trim_ids hwf).mp hid
  have := hwf.idPos e he
  omega

theorem nonpos_not_mem_trim (hwf : s.db.tables.WF) (h : s.id ≤ 0) (offset : ℕ) :
    s.id ∉ (s.db.tables.trim offset).1 := by
  intro hid
  obtain ⟨e, he, heid, -⟩ := (mem_trim_ids hwf).mp hid
  have := hwf.idPos e he
  omega

/-- Until the trim, an event that was received tells what becomes of the current entry. -/
theorem copied_tells {content : Content} (h : Copied a name (some content) s s') :
    ∃ msgs, Informs currentFold fd msgs s s' ∧ currentFold.after s.current msgs = s'.current := by
  cases h with
  | failed hreceived => cases hreceived
  | ignored => exact ⟨[], .of_ipc rfl, rfl⟩
  | @moved _ id pos =>
    refine ⟨_, informs_movedFront currentFold fd a name _ id pos s, ?_⟩
    exact after_stateEvents id (movedFront_id ..)
  | @added _ t f =>
    refine ⟨_, informs_committed currentFold fd a name _ _ s, ?_⟩
    exact after_stateEvents s.db.tables.nextId (committed_id ..)

/-- The entry that an event leaves current is deleted by the trim or not according to the
verdict. -/
theorem copied_not_mem_trim_iff {content : Content} (hwf : s.db.tables.WF)
    (h : Copied a name (some content) s s') :
    s'.id ∉ (s'.db.tables.trim s'.config.maxEntries).1 ↔
      s.TellsEntry (verdict s.config.dedup content.hash s.db.tables) := by
  by_cases hverdict : verdict s.config.dedup content.hash s.db.tables = .ignore
  · rw [copied_ignored h hverdict, hverdict, TellsEntry]
  · obtain ⟨hwf', -, hsurvives⟩ := copied_survivesId_iff hwf h hverdict
    rw [not_mem_trim_iff hwf' (copied_idExists h hverdict), copied_config h, hsurvives]
    cases hv : verdict s.config.dedup content.hash s.db.tables with
    | ignore => exact absurd hv hverdict
    | add | move => rfl

theorem filter_current_iff {ids : List ℤ} (hids : s.id ≤ 0 → s.id ∉ ids) :
    s.current.filter (fun id => id ∉ ids) = s.current ↔ s.id ∉ ids := by
  by_cases hpos : 0 < s.id
  · rw [current_of_pos hpos]
    by_cases hid : s.id ∈ ids <;> simp [Option.filter, hid]
  · rw [current_of_nonpos (by omega)]
    exact iff_of_true rfl (hids (by omega))

/-- After an event that could not be received, the id is `-1`, and only a trim can have told. -/
theorem failed_tells_iff (hsql : a.sql = allOk) (hwf : s.db.tables.WF) :
    ∃ msgs, Informs currentFold fd msgs s ({ s with id := -1 }.trim a) ∧
      (currentFold.after s.current msgs = ({ s with id := -1 }.trim a).current ↔
        s.id ≤ 0 ∨ s.id ∈ (s.db.tables.trim s.config.maxEntries).1) := by
  let failed : State := { s with id := -1 }
  obtain ⟨msgs, hinforms, hafter⟩ := trim_tells fd (s := failed) hsql hwf s.current
  refine ⟨msgs, hinforms.congr_left rfl, ?_⟩
  have hnone : (failed.trim a).current = none := rfl
  rw [hafter, hnone]
  change s.current.filter (fun id => id ∉ (s.db.tables.trim s.config.maxEntries).1) = none ↔ _
  by_cases hpos : 0 < s.id
  · rw [current_of_pos hpos]
    simp [Option.filter, not_le.mpr hpos]
  · rw [current_of_nonpos (by omega)]
    exact iff_of_true rfl (Or.inl (by omega))

theorem handled_tells_iff {written : ℕ → Option Bytes} {mimeTypes : List CString}
    {transient : Bool} (hsql : a.sql = allOk) (hwf : s.db.tables.WF)
    (h : Handled a name written mimeTypes transient s s') :
    ∃ msgs, Informs currentFold fd msgs s s' ∧
      (currentFold.after s.current msgs = s'.current ↔ (mimeTypes ≠ [] →
        if transient then s.id ≤ 0
        else match receiveAll s.config written 0 mimeTypes with
          | none => s.id ≤ 0 ∨ s.id ∈ (s.db.tables.trim s.config.maxEntries).1
          | some content =>
            s.TellsEntry (verdict s.config.dedup (Content.hash content) s.db.tables))) := by
  cases h with
  | empty hmime => exact ⟨[], .of_ipc rfl, iff_of_true rfl fun h => absurd hmime h⟩
  | lost hmime htransient =>
    refine ⟨[], .of_ipc rfl, ?_⟩
    rw [if_pos htransient]
    exact current_eq_none_iff.trans (imp_iff_right hmime).symm
  | @kept hmime htransient content =>
    refine ⟨_, (informs_set currentFold fd a.sql (some name) 0 _).congr_left rfl, ?_⟩
    have hnone : ({ s with id := -1, transient := content }.set a.sql (some name) 0).current =
        none := current_of_nonpos (by rw [set_id])
    rw [if_pos htransient, hnone]
    exact current_eq_none_iff.trans (imp_iff_right hmime).symm
  | @stored hmime htransient s'' hcopied =>
    rw [htransient, if_neg Bool.false_ne_true, imp_iff_right hmime]
    change Copied _ _ (receiveAll s.config written 0 mimeTypes) _ _ at hcopied
    cases hreceived : receiveAll s.config written 0 mimeTypes with
    | none =>
      rw [hreceived] at hcopied
      cases hcopied with
      | ignored h | moved h | added h => cases h
      | failed =>
        obtain ⟨msgs, hinforms, hafter⟩ := failed_tells_iff fd (s := s.clearTransient) hsql
          hwf
        exact ⟨_, hinforms.congr_left rfl, hafter⟩
    | some content =>
      rw [hreceived] at hcopied
      obtain ⟨msgs, hinforms, hafter⟩ := copied_tells fd hcopied
      have hwf' := copied_wf (s := s.clearTransient) hwf hcopied
      obtain ⟨more, hmore, hafter'⟩ := trim_tells fd hsql hwf' s''.current
      refine ⟨_, (hinforms.congr_left rfl).trans hmore, ?_⟩
      have hfirst : currentFold.after s.current msgs = s''.current := hafter
      rw [Fold.after_append]
      change currentFold.after (currentFold.after s.current msgs) more = _ ↔ _
      rw [hfirst, hafter',
        current_congr (s := s'') (trim_id a s''),
        filter_current_iff fun h => nonpos_not_mem_trim hwf' h _]
      exact copied_not_mem_trim_iff (s := s.clearTransient) hwf hcopied

end Selection

theorem currentReports : Reports currentFold current TellsCurrent where
  delivered fd s i name seat written timerOk hevent hdelivers hsql hwf hsaved := by
    obtain ⟨msgs, hinforms, hafter⟩ := handled_tells_iff fd (s := s.withOffer name seat) hsql
      hwf (wsignalSelection_handled (s := s.withOffer name seat) hsql hsaved hwf name written
        seat.mimeTypes seat.transient)
    refine ⟨_, hinforms.congr_left rfl, hafter.trans ⟨fun h => ?_, fun h => ?_⟩⟩
    · intro name' seat' written' timerOk' hevent' hdelivers'
      rw [hevent] at hevent'
      cases hevent'
      obtain rfl := Option.some.inj (hdelivers'.found.symm.trans hdelivers.found)
      exact h
    · exact h name seat written timerOk hevent hdelivers
  other s i hevent name seat written timerOk he hdelivers :=
    absurd hdelivers (hevent name written timerOk seat he)

end State

/-- A client that knows the current entry at some moment at which it is subscribed to state and
delete events holds it after every later step exactly in the runs in which no current entry is
given up without an event, or trimmed while the daemon keeps its id. -/
theorem mirror_holds_current_iff (config : Config) (a : Ambient) {earlier inputs : List Input}
    (hearlier : ∀ i ∈ earlier, ∀ n, (i.ambient n).sql = allOk) {fd n : ℕ} {client c₀ : Client}
    (hclient : (run step (boot config a) earlier).findClient fd = some client) {req : Request}
    (ambient : ℕ → Ambient) (hsql : ∀ n, (ambient n).sql = allOk)
    (hmoment : ((run step (boot config a) earlier).serving ambient client req n).findClient fd =
      some c₀) (hsubscribed : c₀.Subscribes currentFold.flags)
    (hkeeps : ∀ r ∈ (State.batch client req).drop n, State.KeepsFlags currentFold.flags r)
    (hinputs : Meets step (State.StaysSubscribed currentFold.flags fd)
      (run step (boot config a) (earlier ++ [⟨.message fd (some req), ambient⟩])) inputs) :
    let known := ((run step (boot config a) earlier).serving ambient client req n).current
    let served := run step (boot config a) (earlier ++ [⟨.message fd (some req), ambient⟩])
    served.Holds currentFold State.current fd known c₀.sent.length ∧
      (Meets step (fun s i => (step s i).Holds currentFold State.current fd known c₀.sent.length)
          served inputs ↔
        Meets step State.TellsCurrent served inputs) :=
  holds_iff_meets State.currentFaithful State.currentReports config a hearlier hclient ambient hsql
    hmoment hsubscribed hkeeps hinputs

/-- The configuration of a user whose password manager marks what it copies with a type. -/
def configSecret : Config := { configInit with transientMimeTypes := [fun m => m = textPlainUtf8] }

/-- A text is the current entry when a client connects. -/
def connectedLate : List Input :=
  .quiet (.addSeat 0 seat0) :: (copy (0, .regular) [(textPlain, [65])] ++ [.quiet (.connect 0)])

def askStates : Request := .subscribe (some [.flag .entryState, .flag .entryDelete])

/-- Another text is copied, or a secret. -/
def copyText : List Input := copy (0, .regular) [(textPlain, [66])]

def copySecret : List Input := copy (0, .regular) [(textPlainUtf8, [66])]

theorem connectedLate_sql : ∀ i ∈ connectedLate, ∀ n, (i.ambient n).sql = allOk := by
  simp only [connectedLate, List.forall_mem_append, List.forall_mem_cons, List.not_mem_nil,
    false_implies, implies_true, and_true]
  exact ⟨fun _ => rfl, fun i hi => (undisturbed_copy _ _ i hi).sql, fun _ => rfl⟩

/-- The client asks for the events, and knows the current entry from then on. -/
theorem connectedLate_asks : ∃ client c₀ : Client,
    (run step (boot configSecret (.quiet 0)) connectedLate).findClient 0 = some client ∧
      ((run step (boot configSecret (.quiet 0)) connectedLate).serving (fun _ => .quiet 0) client
        askStates 1).findClient 0 = some c₀ ∧ c₀.Subscribes currentFold.flags ∧
      c₀.sent.length = 0 ∧ (State.batch client askStates).drop 1 = [] ∧
      ((run step (boot configSecret (.quiet 0)) connectedLate).serving (fun _ => .quiet 0) client
        askStates 1).current = some 1 := by
  obtain ⟨client, hclient⟩ : ∃ client, (run step (boot configSecret (.quiet 0))
      connectedLate).findClient 0 = some client :=
    Option.isSome_iff_exists.mp (by decide +kernel)
  have hserving : ∀ client ∈ (run step (boot configSecret (.quiet 0)) connectedLate).findClient 0,
      let s := (run step (boot configSecret (.quiet 0)) connectedLate).serving
        (fun _ => .quiet 0) client askStates 1
      client.hold = 0 ∧ s.current = some 1 ∧ (s.findClient 0).isSome = true ∧
        ∀ c ∈ s.findClient 0, c.sent.length = 0 ∧
          ∀ flag ∈ [EventFlag.entryState, .entryDelete], flag ∈ c.events := by
    decide +kernel
  obtain ⟨hhold, hcurrent, hsome, hsent⟩ := hserving client hclient
  obtain ⟨c₀, hc₀⟩ := Option.isSome_iff_exists.mp hsome
  exact ⟨client, c₀, hclient, hc₀, (hsent c₀ hc₀).2, (hsent c₀ hc₀).1, by simp [State.batch, hhold],
    hcurrent⟩

theorem copied_staysSubscribed (content : Content) (s : State) :
    Meets step (State.StaysSubscribed currentFold.flags 0) s (copy (0, .regular) content) := by
  refine Meets.of_mem fun i hi s =>
    staysSubscribed_others _ (undisturbed_copy _ _ i hi).sql ?_ s
  rcases List.mem_append.mp hi with hi | hi
  · rcases List.mem_cons.mp hi with rfl | hi
    · rfl
    · obtain ⟨m, -, rfl⟩ := List.mem_map.mp hi
      rfl
  · rw [List.mem_singleton.mp hi]
    rfl

/-- What the client is told when another text is copied tells it the new current entry. -/
theorem copyText_tells : Meets step State.TellsCurrent
    (run step (boot configSecret (.quiet 0))
      (connectedLate ++ [⟨.message 0 (some askStates), fun _ => .quiet 0⟩])) copyText := by
  obtain ⟨client, c₀, hclient, hc₀, hsubscribes, hlength, hbatch, hcurrent⟩ := connectedLate_asks
  have hmirror := mirror_holds_current_iff configSecret (.quiet 0) connectedLate_sql hclient
    (fun _ => .quiet 0) (n := 1) (fun _ => rfl) hc₀ hsubscribes (by rw [hbatch]; nofun)
    (copied_staysSubscribed [(textPlain, [66])] _)
  rw [hcurrent, hlength] at hmirror
  exact hmirror.2.mp (by decide +kernel)

/-- A secret makes the daemon forget the current entry, of which the client is not told. -/
theorem copySecret_not_told : ∃ client c₀ : Client,
    (∀ i ∈ connectedLate, ∀ n, (i.ambient n).sql = allOk) ∧
      (run step (boot configSecret (.quiet 0)) connectedLate).findClient 0 = some client ∧
      ((run step (boot configSecret (.quiet 0)) connectedLate).serving (fun _ => .quiet 0) client
        askStates 1).findClient 0 = some c₀ ∧ c₀.Subscribes currentFold.flags ∧
      let known := ((run step (boot configSecret (.quiet 0)) connectedLate).serving
        (fun _ => .quiet 0) client askStates 1).current
      let served := run step (boot configSecret (.quiet 0))
        (connectedLate ++ [⟨.message 0 (some askStates), fun _ => .quiet 0⟩])
      Meets step (State.StaysSubscribed currentFold.flags 0) served copySecret ∧
        ¬ Meets step (fun s i => (step s i).Holds currentFold State.current 0 known
          c₀.sent.length) served copySecret := by
  obtain ⟨client, c₀, hclient, hc₀, hsubscribes, hlength, -, hcurrent⟩ := connectedLate_asks
  refine ⟨client, c₀, connectedLate_sql, hclient, hc₀, hsubscribes, copied_staysSubscribed _ _, ?_⟩
  rw [hcurrent, hlength]
  decide +kernel

end Swayclip
