import Swayclip.Daemon.Transitions

/-! # The current entry

The id of the current entry should name an entry, and after an event the one with the
content of the event. The first breaks when a trim deletes the current entry, the second
when an event is ignored as a duplicate although the current entry is another one.
-/

namespace Swayclip
open Library.Ranking Library.Runs Tables

namespace State

/-! ## What trims the current entry -/

def CurrentExists (s : State) : Prop :=
  s.id = -1 ∨ s.id = 0 ∨ s.db.tables.idExists s.id = true

instance (s : State) : Decidable s.CurrentExists :=
  inferInstanceAs (Decidable (s.id = -1 ∨ s.id = 0 ∨ s.db.tables.idExists s.id = true))

/-- The entry that is current after an event with this verdict survives the trim. -/
def KeepsEntry (s : State) : Verdict → Prop
  | .add => 0 < s.config.maxEntries
  | .move id _ => s.db.tables.SurvivesId s.config.maxEntries id
  | .ignore => s.id ≤ 0 ∨ s.db.tables.SurvivesId s.config.maxEntries s.id

instance (s : State) : ∀ v, Decidable (s.KeepsEntry v)
  | .add => inferInstanceAs (Decidable (0 < s.config.maxEntries))
  | .move id _ => inferInstanceAs (Decidable (s.db.tables.SurvivesId s.config.maxEntries id))
  | .ignore => inferInstanceAs
      (Decidable (s.id ≤ 0 ∨ s.db.tables.SurvivesId s.config.maxEntries s.id))

/-- If this is an event to be stored and everything can be received, the entry that becomes
or stays current survives the trim. -/
def KeepsCurrent (s : State) (i : Input) : Prop :=
  ∀ name seat written timerOk content, i.event = .selection name (some written) timerOk →
    Delivers s name seat → seat.mimeTypes ≠ [] → seat.transient = false →
    receiveAll s.config written 0 seat.mimeTypes = some content →
    s.KeepsEntry (verdict s.config.dedup (Content.hash content) s.db.tables)

theorem trim_id (a : Ambient) (s : State) : (s.trim a).id = s.id := rfl

/-- After the trim, the current entry exists exactly if it survives. -/
theorem currentExists_trim {a : Ambient} (hsql : a.sql = allOk) {s : State} (hwf : s.db.tables.WF)
    (hid : 0 < s.id) :
    (s.trim a).CurrentExists ↔ s.db.tables.SurvivesId s.config.maxEntries s.id := by
  rw [CurrentExists, trim_id, trim_tables_quiet hsql, idExists_trim hwf]
  constructor
  · rintro (h | h | h)
    · omega
    · omega
    · exact h
  · exact fun h => Or.inr (Or.inr h)

theorem survivesId_sameRows {t t' : Tables} (h : t'.SameRows t) {offset : ℕ} {id : ℤ} :
    t'.SurvivesId offset id ↔ t.SurvivesId offset id :=
  survivesId_map (f := fun e => e) (by rw [h.entries, List.map_id']) (fun _ => rfl) fun _ => rfl

section Copied
variable {a : Ambient} {name : SelectionName} {s s' : State} {content : Content}

/-- The entry that an event makes current is a row, and survives the trim or not according
to the verdict. -/
theorem copied_survivesId_iff (hwf : s.db.tables.WF) (h : Copied a name (some content) s s')
    (hverdict : verdict s.config.dedup content.hash s.db.tables ≠ .ignore) :
    s'.db.tables.WF ∧ 0 < s'.id ∧ (s'.db.tables.SurvivesId s.config.maxEntries s'.id ↔
      s.KeepsEntry (verdict s.config.dedup content.hash s.db.tables)) := by
  cases h with
  | failed hreceived => cases hreceived
  | ignored hreceived hignore =>
    obtain rfl := Option.some.inj hreceived
    exact absurd hignore hverdict
  | @moved _ id pos hreceived hmove =>
    obtain rfl := Option.some.inj hreceived
    obtain ⟨e, he, -, rfl, -⟩ := verdict_move hmove
    have hrows := movedFront_sameRows a name s.db.tables e.id pos s
    have hupdate : (s.db.tables.moveEntry a.now e.id).SurvivesId s.config.maxEntries e.id ↔
        (s.db.tables.updateSortIndex e.id).SurvivesId s.config.maxEntries e.id :=
      survivesId_map rfl (fun x => by split <;> rfl) fun x => by split <;> rfl
    rw [hmove, KeepsEntry, movedFront_id]
    refine ⟨hrows.wf (moveEntry_wf hwf _ _), hwf.idPos e he, ?_⟩
    rw [survivesId_sameRows hrows]
    exact hupdate.trans (survivesId_map rfl (fun x => by split <;> rfl) fun x => by split <;> rfl)
  | @added _ t f hreceived hadd hadded =>
    obtain rfl := Option.some.inj hreceived
    have hrows := committed_sameRows a name (mapAttributes s.db.tables.nextId f t)
      s.db.tables.nextId s
    have htwf := addEntry_wf hwf hadded
    have hentries := entries_addEntry hadded
    rw [hadd, KeepsEntry, committed_id]
    refine ⟨hrows.wf (mapAttributes_wf htwf _ _), nextId_pos hwf, ?_⟩
    rw [survivesId_sameRows hrows,
      survivesId_map rfl (fun x => by split <;> rfl) (fun x => by split <;> rfl)]
    refine survivesId_newest (e := ⟨s.db.tables.nextId, s.db.tables.maxSortIndex + 1, a.now, a.now,
      false, some content.hash, ⟨none, none⟩⟩) htwf ?_ rfl ?_
    · rw [hentries]
      exact List.mem_append_right _ (List.mem_singleton_self _)
    · intro x hx
      rw [hentries, List.mem_append, List.mem_map, List.mem_singleton] at hx
      rcases hx with ⟨y, hy, rfl⟩ | rfl
      · have := id_lt_nextId hy
        dsimp only
        split <;> exact this.le
      · exact le_rfl

/-- The entry that an event makes current is a row. -/
theorem copied_idExists (h : Copied a name (some content) s s')
    (hverdict : verdict s.config.dedup content.hash s.db.tables ≠ .ignore) :
    s'.db.tables.idExists s'.id = true := by
  cases h with
  | failed hreceived => cases hreceived
  | ignored hreceived hignore =>
    obtain rfl := Option.some.inj hreceived
    exact absurd hignore hverdict
  | @moved _ id pos hreceived hmove =>
    obtain ⟨e, he, -, rfl, -⟩ := verdict_move hmove
    rw [movedFront_id, idExists, (movedFront_sameRows a name s.db.tables e.id pos s).entries]
    change (s.db.tables.moveEntry a.now e.id).idExists e.id = true
    rw [moveEntry, updateEntry, idExists_of_entries (t := s.db.tables.updateSortIndex e.id) rfl
      fun x => by split <;> rfl, idExists_of_entries (t := s.db.tables) rfl
      fun x => by split <;> rfl]
    exact idExists_iff.mpr ⟨e, he, rfl⟩
  | @added _ t f hreceived hadd hadded =>
    rw [committed_id, idExists, (committed_sameRows ..).entries]
    change (mapAttributes s.db.tables.nextId f t).idExists s.db.tables.nextId = true
    rw [idExists_of_entries (t := t) rfl fun x => by split <;> rfl, idExists,
      entries_addEntry hadded]
    simp

/-- The limit is not the event's to change. -/
theorem copied_config {received : Option Content} (h : Copied a name received s s') :
    s'.config = s.config := by
  cases h with
  | failed | ignored => rfl
  | moved | added => exact set_config ..

/-- An event that is stored leaves a current entry that the trim keeps or deletes according
to the verdict. -/
theorem copied_currentExists_iff (hsql : a.sql = allOk) (hwf : s.db.tables.WF)
    (hcurrent : s.CurrentExists) (h : Copied a name (some content) s s') :
    (s'.trim a).CurrentExists ↔
      s.KeepsEntry (verdict s.config.dedup content.hash s.db.tables) := by
  by_cases hverdict : verdict s.config.dedup content.hash s.db.tables = .ignore
  · rw [copied_ignored h hverdict, hverdict, KeepsEntry]
    by_cases hid : s.id ≤ 0
    · refine iff_of_true ?_ (Or.inl hid)
      rcases hcurrent with h | h | h
      · exact Or.inl h
      · exact Or.inr (Or.inl h)
      · obtain ⟨e, he, heid⟩ := idExists_iff.mp h
        have := hwf.idPos e he
        omega
    · rw [currentExists_trim hsql hwf (by omega), or_iff_right hid]
  · obtain ⟨hwf', hpos, hsurvives⟩ := copied_survivesId_iff hwf h hverdict
    rw [currentExists_trim hsql hwf' hpos, copied_config h, hsurvives]

end Copied

/-! ## Requests -/

/-- No request leaves a current entry that does not exist. -/
theorem served_currentExists {a : Ambient} (hsql : a.sql = allOk) {fd : ℕ} {req : Request}
    {s s' : State} (h : Served a fd s req s') (hs : s.CurrentExists) : s'.CurrentExists := by
  have hupdate : ∀ (x : State) id pinned, (x.update a id pinned).2.CurrentExists ↔
      x.CurrentExists := by
    intro x id pinned
    rw [update_eq hsql, CurrentExists, CurrentExists,
      idExists_of_entries (t := x.db.tables) rfl fun e => by split <;> rfl]
  cases h with
  | replied | subscribed | held => exact hs
  | @madeCurrent id hid =>
    refine (hupdate _ id none).mpr ?_
    rw [CurrentExists, set_id, idExists, (set_sameRows ..).entries]
    exact hid.imp_right Or.inr
  | @deleted id hid hexists =>
    by_cases hcurrent : id = s.id
    · simp only [entryDeleted, withoutEntries, hcurrent, or_true, if_true]
      exact Or.inl (set_id ..)
    · have hother : s.id ∉ [id] := by simpa using Ne.symm hcurrent
      simp only [entryDeleted, withoutEntries, hid, hcurrent, or_self, if_false]
      exact hs.imp_right (Or.imp_right fun h => (idExists_delEntries hother).trans h)
  | cleared =>
    simp only [entryDeleted, withoutEntries, true_or, if_true]
    exact Or.inl (set_id ..)
  | @pinned id pin flag hexists => exact (hupdate s id (some flag)).mpr hs

/-! ## Steps -/

theorem step_currentExists_iff {s : State} {i : Input} (hi : Undisturbed i)
    (hwf : s.db.tables.WF) (hsaved : s.db.saved = none) (hs : s.CurrentExists) :
    (step s i).CurrentExists ↔ s.KeepsCurrent i := by
  have htransition := step_transition s i
  generalize step s i = s' at htransition ⊢
  cases htransition with
  | quiet hevent h =>
    refine iff_of_true ?_ ?_
    · rw [CurrentExists, h.id, h.db]
      exact hs
    · exact fun name seat written timerOk content he hdelivers =>
        absurd hdelivers (hevent name written timerOk seat he)
  | restarted hevent => exact absurd hevent (hi.session _)
  | @served fd msg client hevent hclient =>
    refine iff_of_true ?_ ?_
    · exact messageCallback_requests (P := CurrentExists) i.ambient client (fun _ _ _ h => h)
        (fun n req x h => served_currentExists (hi.sql n)
          (requestCallback_served (hi.sql n) client.fd req x) h) msg hs
    · intro name seat written timerOk content he
      rw [hevent] at he
      cases he
  | @delivered name seat written timerOk hevent hdelivers =>
    have honly : s.KeepsCurrent i ↔ (seat.mimeTypes ≠ [] → seat.transient = false →
        ∀ content : Content, receiveAll s.config written 0 seat.mimeTypes = some content →
          s.KeepsEntry (verdict s.config.dedup content.hash s.db.tables)) := by
      constructor
      · exact fun h hmime ht content =>
          h name seat written timerOk content hevent hdelivers hmime ht
      · intro h name' seat' written' timerOk' content he hdelivers' hmime ht
        rw [hevent] at he
        cases he
        obtain rfl := Option.some.inj (hdelivers'.found.symm.trans hdelivers.found)
        exact h hmime ht content
    have hhandled := wsignalSelection_handled (s := s.withOffer name seat) (hi.sql 0) hsaved hwf
      name written seat.mimeTypes seat.transient
    rw [honly]
    change (wsignalSelection _ _ _ _ _ _).CurrentExists ↔ _
    generalize wsignalSelection _ _ _ _ _ _ = s' at hhandled ⊢
    cases hhandled with
    | empty hmime => exact iff_of_true hs fun h => absurd hmime h
    | lost _ ht => exact iff_of_true (Or.inl rfl) fun _ h => absurd (ht.symm.trans h) nofun
    | kept _ ht =>
      exact iff_of_true (Or.inr (Or.inl (set_id ..))) fun _ h => absurd (ht.symm.trans h) nofun
    | @stored hmime ht s'' hcopied =>
      change Copied _ _ (receiveAll s.config written 0 seat.mimeTypes) _ _ at hcopied
      cases hreceived : receiveAll s.config written 0 seat.mimeTypes with
      | none =>
        rw [hreceived] at hcopied
        cases hcopied with
        | failed => exact iff_of_true (Or.inl rfl) nofun
        | ignored h | moved h | added h => cases h
      | some content =>
        rw [hreceived] at hcopied
        rw [copied_currentExists_iff (s := (s.withOffer name seat).clearTransient) (hi.sql 0) hwf
          hs hcopied]
        constructor
        · intro h _ _ content' hc
          exact Option.some.inj hc ▸ h
        · exact fun h => h hmime ht content rfl

end State

/-- In a session that starts without a current entry, the current entry exists after every
step exactly if at each event to be stored it survives the trim. -/
theorem current_exists_iff {config : Config} {a : Ambient} {disk : Tables} (hdisk : disk.WF)
    (hstart : (State.startup config a disk).id = -1) {inputs : List Input}
    (hinputs : ∀ i ∈ inputs, State.Undisturbed i) :
    Meets step (fun s i => (step s i).CurrentExists) (State.startup config a disk) inputs ↔
      Meets step State.KeepsCurrent (State.startup config a disk) inputs := by
  have hwf : ∀ s i, State.WF s → State.WF (step s i) := fun s i h =>
    State.handle_wf h i.ambient i.event
  refine Meets.iff_of_invariant
    (I := fun s => State.WF s ∧ s.db.saved = none ∧ State.CurrentExists s)
    (fun s i hi h => State.step_currentExists_iff (hinputs i hi) h.1.db.tables h.2.1 h.2.2)
    (fun s i hi h hnext => ⟨hwf s i h.1,
      State.step_saved (hinputs i hi).sql h.1.db.tables h.2.1, hnext⟩)
    ⟨State.startup_wf hdisk config a, ?_, Or.inl hstart⟩
  simp only [State.startup, databaseInit, databaseTrim]
  split <;> rfl

/-- The configuration of a user who keeps one entry besides the pinned ones. -/
def configKeepOne : Config := { configInit with maxEntries := 1 }

/-- A text is pinned while another one is copied. -/
def pinnedFirst : List Input :=
  [.quiet (.addSeat 0 seat0), .quiet (.connect 0)] ++ copy (0, .regular) [(textPlain, [65])] ++
    [.quiet (.message 0 (some (.pinEntry (some 1) (some .yes))))] ++
    copy (0, .regular) [(textPlain, [66])]

/-- Without the pin, the text is copied once more. -/
def copiedUnpinned : List Input :=
  .quiet (.message 0 (some (.pinEntry (some 1) (some .no)))) ::
    copy (0, .regular) [(textPlain, [65])]

theorem pinnedFirst_undisturbed : ∀ i ∈ pinnedFirst, State.Undisturbed i := by
  simp only [pinnedFirst, List.forall_mem_append, List.forall_mem_cons, List.not_mem_nil,
    false_implies, implies_true, and_true]
  exact ⟨⟨⟨⟨undisturbed_quiet nofun, undisturbed_quiet nofun⟩, undisturbed_copy _ _⟩,
    undisturbed_quiet nofun⟩, undisturbed_copy _ _⟩

/-- As long as the pin is there, the text may be the current entry. -/
theorem pinnedFirst_keepsCurrent :
    Meets step State.KeepsCurrent (State.startup configKeepOne (.quiet 0) Tables.empty)
      pinnedFirst :=
  (current_exists_iff empty_wf rfl pinnedFirst_undisturbed).mp (by decide +kernel)

/-- Copied once more, the text moves to the front, becomes the current entry, and is trimmed
since it is the oldest. -/
theorem current_missing_after_move :
    (State.startup configKeepOne (.quiet 0) Tables.empty).id = -1 ∧
      (∀ i ∈ pinnedFirst ++ copiedUnpinned, State.Undisturbed i) ∧
      ¬ Meets step (fun s i => (step s i).CurrentExists)
        (State.startup configKeepOne (.quiet 0) Tables.empty) (pinnedFirst ++ copiedUnpinned) := by
  refine ⟨rfl, ?_, by decide +kernel⟩
  simp only [copiedUnpinned, List.forall_mem_append, List.forall_mem_cons]
  exact ⟨pinnedFirst_undisturbed, undisturbed_quiet nofun, undisturbed_copy _ _⟩

/-! ## The content of the current entry -/

namespace State

/-- The current entry is a row with this content. -/
def CurrentHolds (s : State) (content : Content) : Prop :=
  s.db.tables.idExists s.id = true ∧ s.db.tables.Holds s.id content

/-- No digest of the content belongs to other data. -/
def NoCollision (t : Tables) (content : Content) : Prop :=
  ∀ m data, content.first m = some data → data ≠ [] →
    (t.dataOf (sha256 data)).or (content.dataOf (sha256 data)) = some data

/-- A new row can hold the content, an old row with the hash does hold it, or, where nothing
is going to change, the current entry does. -/
def CanHold (s : State) (content : Content) : Prop :=
  match verdict s.config.dedup content.hash s.db.tables with
  | .add => NoCollision s.db.tables content
  | .move id _ => s.db.tables.Holds id content
  | .ignore => s.CurrentHolds content

theorem copied_currentHolds_iff {a : Ambient} {name : SelectionName} {s s' : State}
    {content : Content} (hwf : s.db.tables.WF) (h : Copied a name (some content) s s') :
    s'.CurrentHolds content ↔ s.CanHold content := by
  have hexists := copied_idExists h
  rw [CanHold]
  cases h with
  | failed hreceived => cases hreceived
  | ignored hreceived hverdict =>
    obtain rfl := Option.some.inj hreceived
    rw [hverdict]
  | @moved _ id pos hreceived hverdict =>
    obtain rfl := Option.some.inj hreceived
    have hrows := movedFront_sameRows a name s.db.tables id pos s
    rw [hverdict] at hexists ⊢
    refine (and_iff_right (hexists nofun)).trans ?_
    rw [movedFront_id]
    exact holds_congr hrows.mimeTypes hrows.data
  | @added _ t f hreceived hverdict hadd =>
    obtain rfl := Option.some.inj hreceived
    have hrows := committed_sameRows a name (mapAttributes s.db.tables.nextId f t)
      s.db.tables.nextId s
    rw [hverdict] at hexists ⊢
    have hattributes : (mapAttributes s.db.tables.nextId f t).Holds s.db.tables.nextId content ↔
        t.Holds s.db.tables.nextId content := holds_congr rfl rfl
    refine (and_iff_right (hexists nofun)).trans ?_
    rw [committed_id]
    refine (holds_congr hrows.mimeTypes hrows.data).trans ?_
    exact hattributes.trans (holds_addEntry_iff hwf hadd)

end State

/-- A selection event whose receives and database calls all succeed reaches the trailing trim
with its content in the current entry exactly if that can hold it. -/
theorem current_holds_event_iff {s : State} (hs : Reachable s) {name : SelectionName}
    {seat : Seat} (hdelivers : State.Delivers s name seat) (hmime : seat.mimeTypes ≠ [])
    (htransient : seat.transient = false) (hsaved : s.db.saved = none) (ambient : ℕ → Ambient)
    (hsql : (ambient 0).sql = allOk) (written : ℕ → Option Bytes) (timerOk : Bool)
    (content : Content) (hreceived : receiveAll s.config written 0 seat.mimeTypes = some content) :
    let before := (s.withOffer name seat).beforeTrim (ambient 0) name written seat.mimeTypes
    step s ⟨.selection name (some written) timerOk, ambient⟩ =
        (before.trim (ambient 0)).clearMimeTypes name.1 ∧
      (before.CurrentHolds content ↔ s.CanHold content) := by
  intro before
  have hwf : s.db.tables.WF := hs.wf.db.tables
  obtain ⟨hstep, hcopied⟩ := step_stores hwf hsaved hdelivers hmime htransient hsql timerOk
    hreceived
  exact ⟨hstep,
    State.copied_currentHolds_iff (s := (s.withOffer name seat).clearTransient) hwf hcopied⟩

/-- Finding the seat of a concrete state to which an event can be delivered. -/
theorem exists_delivers (s : State) (name : SelectionName) (p : Seat → Bool)
    (h : (s.findSeat name.1).any (fun seat => State.reaches name.2 seat && p seat) = true) :
    ∃ seat, State.Delivers s name seat ∧ p seat = true := by
  simp only [Option.any_eq_true, Bool.and_eq_true] at h
  obtain ⟨seat, hseat, hreaches, hp⟩ := h
  exact ⟨seat, State.delivers_iff.mpr ⟨hseat, hreaches⟩, hp⟩

def textA : Content := [(textPlain, [65])]

def writtenA : ℕ → Option Bytes := fun i => textA[i]?.map Prod.snd

def offeredFirst : State := run step (firstSession configInit) (offerEvents 0 [textPlain])

/-- Copied for the first time, the text is the content of the current entry. -/
theorem offeredFirst_current_holds :
    ∃ seat, ((offeredFirst.withOffer (0, .regular) seat).beforeTrim (.quiet 0) (0, .regular)
      writtenA seat.mimeTypes).CurrentHolds textA := by
  obtain ⟨seat, hdelivers, hseat⟩ := exists_delivers offeredFirst (0, .regular)
    (fun seat => seat.mimeTypes = [textPlain] && !seat.transient) (by decide +kernel)
  obtain ⟨hmime, htransient⟩ : seat.mimeTypes = [textPlain] ∧ seat.transient = false := by
    simpa using hseat
  have hverdict : verdict offeredFirst.config.dedup textA.hash offeredFirst.db.tables = .add := by
    decide +kernel
  have hcan : offeredFirst.CanHold textA := by
    rw [State.CanHold, hverdict]
    intro m data hdata _
    obtain ⟨-, rfl⟩ : m = textPlain ∧ data = [65] := by
      simpa [textA] using Content.first_eq_some hdata
    decide +kernel
  exact ⟨seat, (current_holds_event_iff ((firstSession_reachable configInit).run _) hdelivers
    (by rw [hmime]; exact nofun) htransient (by decide +kernel) (fun _ => .quiet 0) rfl writtenA
    true textA (by rw [hmime]; decide +kernel)).2.mpr hcan⟩

/-- The text is copied, the clipboard is cleared, and the text is offered again. -/
def offeredAgain : State :=
  run step (firstSession configInit) (.quiet (.connect 0) :: (copy (0, .regular) textA ++
    (.quiet (.message 0 (some (.setClipboard (some (-1))))) :: offerEvents 0 [textPlain])))

/-- Copied again, the text is ignored as a duplicate of the front entry, and there is no
current entry. -/
theorem offeredAgain_not_current :
    ∃ seat, Reachable offeredAgain ∧ State.Delivers offeredAgain (0, .regular) seat ∧
      seat.mimeTypes ≠ [] ∧ seat.transient = false ∧ offeredAgain.db.saved = none ∧
      receiveAll offeredAgain.config writtenA 0 seat.mimeTypes = some textA ∧
      ¬ ((offeredAgain.withOffer (0, .regular) seat).beforeTrim (.quiet 0) (0, .regular) writtenA
        seat.mimeTypes).CurrentHolds textA := by
  obtain ⟨seat, hdelivers, hseat⟩ := exists_delivers offeredAgain (0, .regular)
    (fun seat => seat.mimeTypes = [textPlain] && !seat.transient &&
      !((offeredAgain.withOffer (0, .regular) seat).beforeTrim (.quiet 0) (0, .regular) writtenA
        [textPlain]).db.tables.idExists
          ((offeredAgain.withOffer (0, .regular) seat).beforeTrim (.quiet 0) (0, .regular) writtenA
            [textPlain]).id) (by decide +kernel)
  obtain ⟨⟨hmime, htransient⟩, hmissing⟩ : (seat.mimeTypes = [textPlain] ∧ seat.transient = false) ∧
      _ = false := by
    simpa only [Bool.and_eq_true, decide_eq_true_eq, Bool.not_eq_true'] using hseat
  refine ⟨seat, (firstSession_reachable configInit).run _, hdelivers, by rw [hmime]; exact nofun,
    htransient, by decide +kernel, by rw [hmime]; decide +kernel, ?_⟩
  rintro ⟨hexists, -⟩
  rw [hmime, hmissing] at hexists
  cases hexists

end Swayclip
