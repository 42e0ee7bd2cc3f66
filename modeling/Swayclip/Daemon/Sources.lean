import Swayclip.Daemon.CurrentEntry
import Swayclip.Daemon.NullTimer

/-! # The sources that the daemon owns

A source is created for the current entry of one moment and asked at a later one. The two
agree as long as whatever changes the current entry also replaces the sources: requests do,
but an event that fails, a trim and an ignored event do not.
-/

namespace Swayclip
open Library.Runs Tables

def Seat.sources (seat : Seat) : List Source :=
  seat.selRegular.extDataSource.toList ++ seat.selPrimary.extDataSource.toList

theorem Seat.mem_sources {seat : Seat} {src : Source} :
    src ∈ seat.sources ↔ ∃ type, (seat.sel type).extDataSource = some src := by
  rw [Seat.sources, List.mem_append, Option.mem_toList, Option.mem_toList]
  constructor
  · rintro (h | h)
    · exact ⟨.regular, h⟩
    · exact ⟨.primary, h⟩
  · rintro ⟨type, h⟩
    cases type with
    | regular => exact Or.inl h
    | primary => exact Or.inr h

namespace State

def sources (s : State) : List Source := s.seats.flatMap Seat.sources

theorem mem_sources {s : State} {src : Source} :
    src ∈ s.sources ↔ ∃ seat ∈ s.seats, ∃ type, (seat.sel type).extDataSource = some src := by
  simp only [sources, List.mem_flatMap, Seat.mem_sources]

/-- The source was created for the entry that is current now, advertised its types, and is
answered as it was meant to be. -/
structure Advertises (s : State) (src : Source) : Prop where
  entry : src.entry = s.id
  current : 0 ≤ s.id
  mimeTypes : src.mimeTypes = s.offeredTypes true
  held : ∀ m ∈ src.mimeTypes, s.wsignalSend true m = src.held m

/-- The correspondence for every source, wherever the daemon owns one. -/
def Synced (s : State) : Prop := ∀ src ∈ s.sources, s.Advertises src

/-- Sources are owned on enabled selections only. -/
def Placed (s : State) : Prop :=
  ∀ seat ∈ s.seats, ∀ type src, (seat.sel type).extDataSource = some src →
    seat.enabled = true ∧ (seat.sel type).enabled = true

/-! ## What answers the same -/

/-- Whatever is asked about the current entry, the answer is the same. -/
structure SameAnswers (s' s : State) : Prop where
  id : s'.id = s.id
  offered : s'.offeredTypes true = s.offeredTypes true
  send : ∀ m, s'.wsignalSend true m = s.wsignalSend true m

theorem SameAnswers.advertises {s' s : State} (h : s'.SameAnswers s) {src : Source}
    (hsrc : s.Advertises src) : s'.Advertises src where
  entry := hsrc.entry.trans h.id.symm
  current := h.id.symm ▸ hsrc.current
  mimeTypes := hsrc.mimeTypes.trans h.offered.symm
  held m hm := (h.send m).trans (hsrc.held m hm)

theorem SameAnswers.synced {s' s : State} (h : s'.SameAnswers s) (hseats : s'.seats = s.seats)
    (hs : s.Synced) : s'.Synced := by
  intro src hsrc
  rw [sources, hseats] at hsrc
  exact h.advertises (hs src hsrc)

/-- The rows of the current entry or the transient data decide. -/
theorem sameAnswers_of_rows {s' s : State} (hid : s'.id = s.id)
    (htransient : s.id ≤ 0 → s'.transient = s.transient)
    (hmime : s.id ≠ 0 → s'.db.tables.getMimeTypes s.id = s.db.tables.getMimeTypes s.id)
    (hdata : 0 < s.id → ∀ m, s'.db.tables.getData s.id m = s.db.tables.getData s.id m) :
    s'.SameAnswers s := by
  refine ⟨hid, ?_, fun m => ?_⟩
  · rw [offeredTypes, offeredTypes, hid]
    by_cases h : s.id = 0
    · rw [if_pos h, if_pos h, htransient h.le]
    · rw [if_neg h, if_neg h, databaseGetMimeTypes, databaseGetMimeTypes, hmime h]
  · rw [wsignalSend, wsignalSend, hid]
    by_cases h : 0 < s.id
    · simp only [databaseGetData, hdata h]
      simp [h]
    · rw [htransient (not_lt.mp h), if_neg h, if_neg h]

theorem sameAnswers_of_core {s' s : State} (h : s'.SameCore s) : s'.SameAnswers s :=
  sameAnswers_of_rows h.id (fun _ => h.transient) (fun _ => by rw [h.db]) fun _ _ => by rw [h.db]

/-- Neither deleting other entries nor rewriting rows of `Entries` changes an answer. -/
theorem sameAnswers_delEntries {s : State} {ids : List ℤ} (h : s.id ∉ ids) :
    (s.withoutEntries ids).SameAnswers s :=
  sameAnswers_of_rows rfl (fun _ => rfl) (fun _ => getMimeTypes_delEntries h)
    fun _ m => getData_delEntries h m

theorem sameAnswers_entries {s : State} {t : Tables} (hmime : t.mimeTypes = s.db.tables.mimeTypes)
    (hdata : t.data = s.db.tables.data) (saved : Option Tables) (ipc : List Client) :
    ({ s with db := ⟨t, saved⟩, ipc := ipc } : State).SameAnswers s := by
  have hof : t.dataOf = s.db.tables.dataOf := by
    funext d
    rw [dataOf, hdata, dataOf]
  refine sameAnswers_of_rows rfl (fun _ => rfl) (fun _ => ?_) fun _ m => ?_
  · rw [getMimeTypes, hmime, getMimeTypes]
  · rw [getData_eq, mimeRow, hmime, hof, getData_eq, mimeRow]

theorem update_sameAnswers {a : Ambient} (hsql : a.sql = allOk) (id : ℤ) (pinned : Option Bool)
    (s : State) : (s.update a id pinned).2.SameAnswers s := by
  rw [update_eq hsql]
  exact sameAnswers_entries (s := s) (t := s.db.tables.updateEntry a.now pinned id) rfl rfl _ _

/-- A trim that the current entry survives. -/
theorem trim_sameAnswers {a : Ambient} (hsql : a.sql = allOk) {s : State} (hwf : s.db.tables.WF)
    (h : s.db.tables.SurvivesId s.config.maxEntries s.id) : (s.trim a).SameAnswers s := by
  have hkept : s.id ∉ (s.db.tables.trim s.config.maxEntries).1 := by
    rw [mem_trim_ids hwf]
    rintro ⟨e, he, hid, hnot⟩
    obtain ⟨x, hx, hxid, hs⟩ := h
    obtain rfl := hwf.idDistinct.eq he hx (hid.trans hxid.symm)
    exact hnot hs
  have htables := trim_tables_quiet hsql s
  refine sameAnswers_of_rows rfl (fun _ => rfl) (fun _ => ?_) fun _ m => ?_
  · rw [htables, trim_tables, getMimeTypes_delEntries hkept]
  · rw [htables, trim_tables, getData_delEntries hkept]

/-- Clients do not matter. -/
theorem synced_ipc {s : State} (h : s.Synced ∧ s.Placed) (ipc : List Client) :
    ({ s with ipc := ipc } : State).Synced ∧ ({ s with ipc := ipc } : State).Placed := by
  have hsame : ({ s with ipc := ipc } : State).SameAnswers s :=
    sameAnswers_of_core ⟨rfl, rfl, rfl, rfl, rfl, rfl⟩
  exact ⟨hsame.synced rfl h.1, h.2⟩

/-! ## Setting the selections -/

/-- A source that the callback creates is up to date; without one, the selection is cleared
or left alone. -/
theorem selectionSet_source {s : State} {sql : Sql} (hsql : sql = allOk) (name : SelectionName)
    (sel : Selection) {src : Source}
    (h : (selectionSet (s.setCallback sql name) sel).extDataSource = some src) :
    s.Advertises src ∨ s.id < 0 ∧ s.cleared = false ∧ sel.extDataSource = some src := by
  rw [setCallback, hsql, allOk_apply, wsignalSet] at h
  by_cases hid : 0 ≤ s.id
  · simp only [selectionSet, ge_iff_le, hid, if_true] at h
    obtain rfl := Option.some.inj h
    exact Or.inl ⟨rfl, hid, rfl, fun _ _ => rfl⟩
  · cases hcleared : s.cleared with
    | true => simp [hid, hcleared, selectionSet] at h
    | false => exact Or.inr ⟨not_le.mp hid, rfl, by simpa [hid, hcleared, selectionSet] using h⟩

@[simp] theorem selectionSet_enabled (result : SetResult) (sel : Selection) :
    (selectionSet result sel).enabled = sel.enabled := by
  rw [selectionSet]
  split <;> rfl

/-- After `set`, every source has just been created, on an enabled selection other than the
one to ignore. -/
theorem set_source {sql : Sql} (hsql : sql = allOk) {ignore : Option SelectionName} {id : ℤ}
    {s : State} (hid : id = -1 ∨ 0 ≤ id) (hplaced : s.Placed)
    (hignore : ∀ seat ∈ s.seats, ∀ type, ignore = some (seat.globalName, type) →
      (seat.sel type).extDataSource = none)
    {seat' : Seat} (hseat' : seat' ∈ (s.set sql ignore id).seats) {type : SelectionType}
    {src : Source} (hsrc : (seat'.sel type).extDataSource = some src) :
    (s.set sql ignore id).Advertises src ∧ seat'.enabled = true ∧ (seat'.sel type).enabled = true ∧
      ∃ seat ∈ s.seats, seat.enabled = true ∧ (seat.sel type).enabled = true ∧
        ignore ≠ some (seat.globalName, type) := by
  have hcleared : (s.set sql ignore id).id = -1 ∧ (s.set sql ignore id).cleared = true ∨
      0 ≤ (s.set sql ignore id).id := by
    rw [set_id, set_cleared]
    exact hid.imp_left fun h => ⟨h, by simp [h]⟩
  rw [set_seats, Swayclip.waylandSet, List.mem_map] at hseat'
  obtain ⟨seat, hseat, rfl⟩ := hseat'
  by_cases henabled : seat.enabled = true
  · rw [if_pos henabled, seatSet_sel] at hsrc ⊢
    by_cases hset : (seat.sel type).enabled = true ∧ ignore ≠ some (seat.globalName, type)
    · rw [if_pos hset] at hsrc ⊢
      refine ⟨?_, by rw [seatSet_enabled, henabled], by rw [selectionSet_enabled, hset.1],
        seat, hseat, henabled, hset⟩
      rcases selectionSet_source hsql _ _ hsrc with hnew | ⟨hneg, hnot, -⟩
      · exact hnew
      · rcases hcleared with ⟨-, hyes⟩ | hpos
        · rw [hnot] at hyes
          cases hyes
        · exact absurd hneg (not_lt.mpr hpos)
    · rw [if_neg hset] at hsrc
      have hnamed := not_and_not_right.mp hset (hplaced seat hseat type src hsrc).2
      rw [hignore seat hseat type hnamed] at hsrc
      cases hsrc
  · rw [if_neg henabled] at hsrc
    exact absurd (hplaced seat hseat type src hsrc).1 henabled

theorem set_synced {sql : Sql} (hsql : sql = allOk) {ignore : Option SelectionName} {id : ℤ}
    {s : State} (hid : id = -1 ∨ 0 ≤ id) (hplaced : s.Placed)
    (hignore : ∀ seat ∈ s.seats, ∀ type, ignore = some (seat.globalName, type) →
      (seat.sel type).extDataSource = none) :
    (s.set sql ignore id).Synced ∧ (s.set sql ignore id).Placed := by
  constructor
  · intro src hsrc
    obtain ⟨seat, hseat, type, hsel⟩ := mem_sources.mp hsrc
    exact (set_source hsql hid hplaced hignore hseat hsel).1
  · intro seat hseat type src hsel
    obtain ⟨-, hseatEnabled, henabled, -⟩ := set_source hsql hid hplaced hignore hseat hsel
    exact ⟨hseatEnabled, henabled⟩

/-- Nobody to ignore: a request sets every selection. -/
theorem set_all_synced {sql : Sql} (hsql : sql = allOk) {id : ℤ} {s : State}
    (hid : id = -1 ∨ 0 ≤ id) (hplaced : s.Placed) :
    (s.set sql none id).Synced ∧ (s.set sql none id).Placed :=
  set_synced hsql hid hplaced fun _ _ _ h => nomatch h

/-! ## Requests -/

theorem update_synced {a : Ambient} (hsql : a.sql = allOk) {s : State} (h : s.Synced ∧ s.Placed)
    (id : ℤ) (pinned : Option Bool) :
    (s.update a id pinned).2.Synced ∧ (s.update a id pinned).2.Placed := by
  have hseats : (s.update a id pinned).2.seats = s.seats := by rw [update_eq hsql]
  refine ⟨(update_sameAnswers hsql id pinned s).synced hseats h.1, ?_⟩
  rw [Placed, hseats]
  exact h.2

theorem served_synced {a : Ambient} (hsql : a.sql = allOk) {fd : ℕ} {req : Request}
    {s s' : State} (h : Served a fd s req s') (hwf : s.db.tables.WF)
    (hs : s.Synced ∧ s.Placed) : s'.Synced ∧ s'.Placed := by
  cases h with
  | replied | subscribed | held => exact synced_ipc hs _
  | @madeCurrent id hid =>
    have hnonneg : id = -1 ∨ 0 ≤ id := by
      refine hid.imp_right fun h => ?_
      obtain ⟨e, he, rfl⟩ := idExists_iff.mp h
      exact (hwf.idPos e he).le
    have hset := set_all_synced hsql hnonneg hs.2
    exact synced_ipc (update_synced hsql hset id none) _
  | @deleted id hid hexists =>
    apply synced_ipc
    apply synced_ipc
    by_cases hcurrent : id = s.id
    · have hreset : id = -1 ∨ id = (s.withoutEntries [id]).id := Or.inr hcurrent
      rw [if_pos hreset]
      exact set_all_synced hsql (Or.inl rfl) hs.2
    · have hother : s.id ∉ [id] := by simpa using Ne.symm hcurrent
      rw [if_neg (by simp [hid, hcurrent, withoutEntries])]
      exact ⟨(sameAnswers_delEntries hother).synced rfl hs.1, hs.2⟩
  | cleared =>
    apply synced_ipc
    apply synced_ipc
    have hreset : (-1 : ℤ) = -1 ∨ -1 =
        (s.withoutEntries (s.db.tables.entries.map Entry.id)).id := Or.inl rfl
    rw [if_pos hreset]
    exact set_all_synced hsql (Or.inl rfl) hs.2
  | @pinned id pin flag hexists => exact synced_ipc (update_synced hsql hs id (some flag)) _

/-! ## Selection events -/

/-- Some enabled selection other than the named one. -/
def othersEnabled (name : SelectionName) (s : State) : Bool :=
  s.seats.any (fun seat => seat.enabled && [SelectionType.regular, .primary].any (fun type =>
    (seat.sel type).enabled && (seat.globalName, type) ≠ name))

theorem othersEnabled_of_mem {name : SelectionName} {s : State} {seat : Seat}
    (hseat : seat ∈ s.seats)
    (hseatEnabled : seat.enabled = true) {type : SelectionType}
    (henabled : (seat.sel type).enabled = true) (hname : (seat.globalName, type) ≠ name) :
    s.othersEnabled name = true := by
  refine List.any_eq_true.mpr ⟨seat, hseat, ?_⟩
  rw [hseatEnabled, Bool.true_and, List.any_eq_true]
  exact ⟨type, by cases type <;> simp, by simp [henabled, hname]⟩

/-- No source outlives the entry it was created for: when nothing can be received or the
event is ignored there is none, or the current entry stays; otherwise the new current entry
survives the trim, or nobody advertises it. -/
def KeepsSources (s : State) (name : SelectionName) (transient : Bool) (received : Option Content) :
    Prop :=
  match received with
  | none => s.sources.isEmpty = true
  | some content => transient = true ∨
      if verdict s.config.dedup content.hash s.db.tables = .ignore then
        s.sources.isEmpty = true ∨
          0 < s.id ∧ s.db.tables.SurvivesId s.config.maxEntries s.id
      else
        s.KeepsEntry (verdict s.config.dedup content.hash s.db.tables) ∨
          s.othersEnabled name = false

theorem synced_of_isEmpty {s s' : State} (hseats : s'.seats = s.seats)
    (h : s.sources.isEmpty = true) : s'.Synced := by
  intro src hsrc
  rw [sources, hseats, ← sources, List.isEmpty_iff.mp h] at hsrc
  cases hsrc

theorem synced_of_no_seats {s : State} (h : s.seats = []) : s.Synced ∧ s.Placed := by
  refine ⟨fun src hsrc => ?_, fun seat hseat => ?_⟩
  · rw [sources, h] at hsrc
    cases hsrc
  · rw [h] at hseat
    cases hseat

/-- A new current entry that is trimmed at once leaves no source behind if it is not
advertised, and a kept one is advertised as it is. -/
theorem set_trim_synced {a : Ambient} (hsql : a.sql = allOk) {name : SelectionName} {id : ℤ}
    {s : State} (hid : 0 ≤ id) (hplaced : s.Placed)
    (hname : ∀ seat ∈ s.seats, ∀ type, some name = some (seat.globalName, type) →
      (seat.sel type).extDataSource = none)
    (hwf : (s.set a.sql (some name) id).db.tables.WF)
    (h : (s.set a.sql (some name) id).db.tables.SurvivesId s.config.maxEntries id ∨
      s.othersEnabled name = false) :
    ((s.set a.sql (some name) id).trim a).Synced ∧
      ((s.set a.sql (some name) id).trim a).Placed := by
  have hset := set_synced hsql (Or.inr hid) hplaced hname
  refine ⟨?_, hset.2⟩
  rcases h with h | h
  · have hsame : ((s.set a.sql (some name) id).trim a).SameAnswers (s.set a.sql (some name) id) :=
      trim_sameAnswers hsql hwf (by rwa [set_id, set_config])
    exact hsame.synced rfl hset.1
  · intro src hsrc
    obtain ⟨seat', hseat', type, hsel⟩ := mem_sources.mp hsrc
    obtain ⟨-, -, -, seat, hseat, hseatEnabled, henabled, hne⟩ :=
      set_source hsql (Or.inr hid) hplaced hname hseat' hsel
    have hothers := othersEnabled_of_mem hseat hseatEnabled henabled fun he => hne (by rw [he])
    rw [h] at hothers
    cases hothers

theorem handled_synced {a : Ambient} (hsql : a.sql = allOk) {name : SelectionName}
    {written : ℕ → Option Bytes} {mimeTypes : List CString} {transient : Bool} {s s' : State}
    (h : Handled a name written mimeTypes transient s s') (hwf : s.db.tables.WF)
    (hs : s.Synced ∧ s.Placed)
    (hname : ∀ seat ∈ s.seats, ∀ type, some name = some (seat.globalName, type) →
      (seat.sel type).extDataSource = none)
    (hkeeps : mimeTypes ≠ [] →
      s.KeepsSources name transient (receiveAll s.config written 0 mimeTypes)) :
    s'.Synced ∧ s'.Placed := by
  cases h with
  | empty => exact hs
  | lost hmime _ hreceived =>
    have hempty := hkeeps hmime
    rw [hreceived] at hempty
    exact ⟨synced_of_isEmpty (s := s) rfl hempty, hs.2⟩
  | kept => exact set_synced hsql (Or.inr le_rfl) hs.2 hname
  | @stored hmime htransient s'' hcopied =>
    have hkeeps := hkeeps hmime
    cases hreceived : receiveAll s.config written 0 mimeTypes with
    | none =>
      rw [hreceived] at hkeeps hcopied
      cases hcopied with
      | failed => exact ⟨synced_of_isEmpty (s := s) rfl hkeeps, hs.2⟩
      | ignored h | moved h | added h => cases h
    | some content =>
      rw [hreceived] at hkeeps hcopied
      have hkeeps := hkeeps.resolve_left (by simp [htransient])
      by_cases hverdict : verdict s.config.dedup (Content.hash content) s.db.tables = .ignore
      · rw [if_pos hverdict] at hkeeps
        cases hcopied with
        | failed hnone => cases hnone
        | moved hsome hother | added hsome hother =>
          obtain rfl := Option.some.inj hsome
          exact absurd (hother.symm.trans hverdict) nofun
        | ignored hsome hignore =>
          refine ⟨?_, hs.2⟩
          rcases hkeeps with hempty | ⟨hpos, hsurvives⟩
          · exact synced_of_isEmpty (s := s) rfl hempty
          · have hclear : s.clearTransient.SameAnswers s :=
              sameAnswers_of_rows rfl (fun h => absurd hpos (not_lt.mpr h)) (fun _ => rfl)
                fun _ _ => rfl
            have htrim : (s.clearTransient.trim a).SameAnswers s.clearTransient :=
              trim_sameAnswers hsql hwf hsurvives
            exact htrim.synced rfl (hclear.synced rfl hs.1)
      · rw [if_neg hverdict] at hkeeps
        obtain ⟨hwf', hpos, hsurvives⟩ := copied_survivesId_iff (s := s.clearTransient) hwf hcopied
          hverdict
        have hkept := hkeeps.imp_left hsurvives.mpr
        cases hcopied with
        | failed hnone => cases hnone
        | ignored hsome hignore =>
          obtain rfl := Option.some.inj hsome
          exact absurd hignore hverdict
        | moved =>
          rw [movedFront, set_id] at hpos hkept
          exact set_trim_synced hsql hpos.le hs.2 hname hwf' hkept
        | added =>
          rw [committed, set_id] at hpos hkept
          exact set_trim_synced hsql hpos.le hs.2 hname hwf' hkept

/-! ## Steps -/

theorem sameAnswers_seats (s : State) (seats : List Seat) :
    ({ s with seats := seats } : State).SameAnswers s :=
  sameAnswers_of_core ⟨rfl, rfl, rfl, rfl, rfl, rfl⟩

/-- A seat is put back with sources that are up to date. -/
theorem putSeat_synced {s : State} (hs : s.Synced ∧ s.Placed) {new : Seat}
    (hnew : ∀ type src, (new.sel type).extDataSource = some src →
      new.enabled = true ∧ (new.sel type).enabled = true ∧ s.Advertises src) :
    (s.putSeat new).Synced ∧ (s.putSeat new).Placed := by
  have hall : ∀ seat' ∈ (s.putSeat new).seats, ∀ type src,
      (seat'.sel type).extDataSource = some src →
      seat'.enabled = true ∧ (seat'.sel type).enabled = true ∧ s.Advertises src := by
    intro seat' hseat' type src hsrc
    obtain ⟨seat, hseat, rfl⟩ := List.mem_map.mp hseat'
    split at hsrc <;> rename_i hname
    · rw [if_pos hname]
      exact hnew type src hsrc
    · rw [if_neg hname]
      obtain ⟨hseatEnabled, henabled⟩ := hs.2 seat hseat type src hsrc
      exact ⟨hseatEnabled, henabled, hs.1 src (mem_sources.mpr ⟨seat, hseat, type, hsrc⟩)⟩
  constructor
  · intro src hsrc
    obtain ⟨seat, hseat, type, hsel⟩ := mem_sources.mp hsrc
    exact (sameAnswers_seats s _).advertises (hall seat hseat type src hsel).2.2
  · exact fun seat hseat type src hsel =>
      ⟨(hall seat hseat type src hsel).1, (hall seat hseat type src hsel).2.1⟩

/-- One selection is rewritten; a source on it is up to date or was there before. -/
theorem putSel_synced {s : State} (hs : s.Synced ∧ s.Placed) {seat : Seat} (hseat : seat ∈ s.seats)
    {type : SelectionType} {sel : Selection} (henabled : sel.enabled = (seat.sel type).enabled)
    (hsel : ∀ src, sel.extDataSource = some src → (seat.sel type).extDataSource = some src ∨
      seat.enabled = true ∧ sel.enabled = true ∧ s.Advertises src) :
    (s.putSeat (seat.setSel type sel)).Synced ∧ (s.putSeat (seat.setSel type sel)).Placed := by
  have hold : ∀ t src, (seat.sel t).extDataSource = some src →
      seat.enabled = true ∧ (seat.sel t).enabled = true ∧ s.Advertises src := fun t src hsrc =>
    ⟨(hs.2 seat hseat t src hsrc).1, (hs.2 seat hseat t src hsrc).2,
      hs.1 src (mem_sources.mpr ⟨seat, hseat, t, hsrc⟩)⟩
  refine putSeat_synced hs fun t src hsrc => ?_
  rw [Seat.setSel_enabled]
  by_cases ht : t = type
  · subst ht
    rw [Seat.sel_setSel] at hsrc ⊢
    rcases hsel src hsrc with h | h
    · rw [henabled]
      exact hold t src h
    · exact h
  · rw [Seat.sel_setSel_of_ne _ _ ht] at hsrc ⊢
    exact hold t src hsrc

/-- If this is an event to be stored, no source outlives the entry it was created for. -/
def KeepsAdvertised (s : State) (i : Input) : Prop :=
  ∀ name seat written timerOk, i.event = .selection name (some written) timerOk →
    Delivers s name seat → seat.mimeTypes ≠ [] →
    (s.withOffer name seat).KeepsSources name seat.transient
      (receiveAll s.config written 0 seat.mimeTypes)

theorem withOffer_synced {s : State} (hs : s.Synced ∧ s.Placed) {name : SelectionName} {seat : Seat}
    (h : Delivers s name seat) :
    (s.withOffer name seat).Synced ∧ (s.withOffer name seat).Placed :=
  putSel_synced hs (findSeat_mem h.found) rfl fun _ hsrc => Or.inl hsrc

/-- The selection that the event is for has no source. -/
theorem withOffer_noSource {s : State} {name : SelectionName} {seat : Seat}
    (h : Delivers s name seat) {seat' : Seat} (hseat' : seat' ∈ (s.withOffer name seat).seats)
    {type : SelectionType} (hname : some name = some (seat'.globalName, type)) :
    (seat'.sel type).extDataSource = none := by
  have hn : name.1 = seat'.globalName := congrArg Prod.fst (Option.some.inj hname)
  have ht : name.2 = type := congrArg Prod.snd (Option.some.inj hname)
  obtain ⟨old, hold, hput⟩ := List.mem_map.mp hseat'
  split at hput
  · rw [← hput, ← ht, Seat.sel_setSel]
    exact h.noSource
  · rename_i hother
    rw [Seat.setSel_globalName, findSeat_globalName h.found, hput] at hother
    exact absurd hn.symm hother

/-- Rewriting what seats have collected leaves their selections alone. -/
theorem mapSeats_synced {s : State} (hs : s.Synced ∧ s.Placed) {f : Seat → Seat}
    (hsel : ∀ seat type, (f seat).sel type = seat.sel type)
    (henabled : ∀ seat, (f seat).enabled = seat.enabled) :
    ({ s with seats := s.seats.map f } : State).Synced ∧
      ({ s with seats := s.seats.map f } : State).Placed := by
  constructor
  · intro src hsrc
    obtain ⟨seat', hseat', type, hsrc⟩ := mem_sources.mp hsrc
    obtain ⟨seat, hseat, rfl⟩ := List.mem_map.mp hseat'
    rw [hsel] at hsrc
    exact (sameAnswers_seats s _).advertises (hs.1 src (mem_sources.mpr ⟨seat, hseat, type, hsrc⟩))
  · intro seat' hseat' type src hsrc
    obtain ⟨seat, hseat, rfl⟩ := List.mem_map.mp hseat'
    rw [hsel] at hsrc ⊢
    rw [henabled]
    exact hs.2 seat hseat type src hsrc

/-- Fewer seats, or more with sources that are up to date. -/
theorem seats_synced {s : State} (hs : s.Synced ∧ s.Placed) {seats : List Seat}
    (h : ∀ seat ∈ seats, seat ∈ s.seats ∨ ∀ type src, (seat.sel type).extDataSource = some src →
      seat.enabled = true ∧ (seat.sel type).enabled = true ∧ s.Advertises src) :
    ({ s with seats := seats } : State).Synced ∧ ({ s with seats := seats } : State).Placed := by
  constructor
  · intro src hsrc
    obtain ⟨seat, hseat, type, hsrc⟩ := mem_sources.mp hsrc
    apply (sameAnswers_seats s _).advertises
    rcases h seat hseat with hold | hnew
    · exact hs.1 src (mem_sources.mpr ⟨seat, hold, type, hsrc⟩)
    · exact (hnew type src hsrc).2.2
  · intro seat hseat type src hsrc
    rcases h seat hseat with hold | hnew
    · exact hs.2 seat hold type src hsrc
    · exact ⟨(hnew type src hsrc).1, (hnew type src hsrc).2.1⟩

theorem addSeat_synced {a : Ambient} (hsql : a.sql = allOk) {s : State}
    (hs : s.Synced ∧ s.Placed) (n : ℕ) (name : CString) :
    (s.addSeat a n name).Synced ∧ (s.addSeat a n name).Placed := by
  have hnew : ∀ type, ((newSeat s.config n name).sel type).extDataSource = none := by
    intro type
    cases type <;> rfl
  rw [addSeat]
  split
  · exact hs
  · refine seats_synced hs fun seat hseat => (List.mem_cons.mp hseat).symm.imp_right ?_
    rintro rfl type src hsrc
    by_cases henabled : (newSeat s.config n name).enabled = true
    · rw [if_pos henabled, seatSet_sel] at hsrc ⊢
      by_cases hsel : ((newSeat s.config n name).sel type).enabled = true ∧
          none ≠ some ((newSeat s.config n name).globalName, type)
      · rw [if_pos hsel] at hsrc ⊢
        rcases selectionSet_source hsql _ _ hsrc with hfresh | ⟨-, -, hold⟩
        · exact ⟨by rw [seatSet_enabled, henabled], by rw [selectionSet_enabled, hsel.1], hfresh⟩
        · rw [hnew] at hold
          cases hold
      · rw [if_neg hsel, hnew] at hsrc
        cases hsrc
    · rw [if_neg henabled, hnew] at hsrc
      cases hsrc

theorem delivered_synced {s : State} {i : Input} (hwf : s.db.tables.WF)
    (hsql : ∀ n, (i.ambient n).sql = allOk) (hsaved : s.db.saved = none)
    (hs : s.Synced ∧ s.Placed) {name : SelectionName} {seat : Seat} (h : Delivers s name seat)
    {written : ℕ → Option Bytes} (hkeeps : seat.mimeTypes ≠ [] →
      (s.withOffer name seat).KeepsSources name seat.transient
        (receiveAll s.config written 0 seat.mimeTypes)) :
    let s' := ((s.withOffer name seat).wsignalSelection (i.ambient 0) name written seat.mimeTypes
      seat.transient).clearMimeTypes name.1
    s'.Synced ∧ s'.Placed := by
  have hhandled := wsignalSelection_handled (s := s.withOffer name seat) (hsql 0) hsaved hwf name
    written seat.mimeTypes seat.transient
  have hsynced := handled_synced (hsql 0) hhandled hwf (withOffer_synced hs h)
    (fun seat' hseat' type => withOffer_noSource h hseat') hkeeps
  refine mapSeats_synced hsynced (fun seat type => ?_) fun seat => ?_
  · split
    · cases type <;> rfl
    · rfl
  · split <;> rfl

theorem selection_synced {s : State} {name : SelectionName} {offer : Option (ℕ → Option Bytes)}
    {timerOk : Bool} {ambient : ℕ → Ambient} (hwf : s.db.tables.WF)
    (hsql : ∀ n, (ambient n).sql = allOk) (hsaved : s.db.saved = none)
    (hs : s.Synced ∧ s.Placed)
    (hkeeps : s.KeepsAdvertised ⟨.selection name offer timerOk, ambient⟩) :
    (step s ⟨.selection name offer timerOk, ambient⟩).Synced ∧
      (step s ⟨.selection name offer timerOk, ambient⟩).Placed := by
  rcases onSeat_cases name.1 (selection (ambient 0) name.2 offer timerOk) s with
    he | ⟨seat, hseat, hseatEnabled, he⟩
  · rw [step, handle, he]
    exact hs
  · rcases selection_cases (ambient 0) name.2 offer timerOk seat s with
      hevent | ⟨written, rfl, henabled, hsource, hblocked, -⟩
    · rw [step, handle, he, hevent]
      have hkept := selectionEvent_source seat.blocked offer.isSome s.wsignalCanSet timerOk
        (seat.sel name.2)
      exact putSel_synced hs (findSeat_mem hseat) hkept.2 fun src hsrc =>
        Or.inl (hkept.1.symm.trans hsrc)
    · have h : Delivers s name seat := ⟨hseat, hseatEnabled, henabled, hsource, hblocked⟩
      rw [step_delivers h]
      exact delivered_synced (i := ⟨.selection name (some written) timerOk, ambient⟩) hwf hsql
        hsaved hs h (hkeeps name seat written timerOk rfl h)

theorem nullTimer_synced {a : Ambient} (hsql : a.sql = allOk) {s : State} (harmed : ArmedEnabled s)
    (hs : s.Synced ∧ s.Placed) {name : SelectionName} {seat : Seat}
    (hseat : s.findSeat name.1 = some seat) (hseatEnabled : seat.enabled = true) (ok : Bool) :
    (s.nullTimer a name.2 ok seat).Synced ∧ (s.nullTimer a name.2 ok seat).Placed := by
  rw [nullTimer]
  split
  · rename_i htimer
    have henabled := harmed name seat hseat htimer
    rw [nullTimerCallback]
    split
    · refine putSel_synced hs (findSeat_mem hseat) (selectionSet_enabled ..) fun src hsrc => ?_
      rcases selectionSet_source hsql _ _ hsrc with hfresh | ⟨-, -, hold⟩
      · exact Or.inr ⟨hseatEnabled, (selectionSet_enabled ..).trans henabled, hfresh⟩
      · exact Or.inl hold
    · exact putSel_synced hs (findSeat_mem hseat) rfl fun src hsrc => Or.inl hsrc
  · exact hs

theorem step_synced {s : State} {i : Input} (hs : Reachable s)
    (hsql : ∀ n, (i.ambient n).sql = allOk) (hsaved : s.db.saved = none)
    (h : s.Synced ∧ s.Placed) (hkeeps : s.KeepsAdvertised i) :
    (step s i).Synced ∧ (step s i).Placed := by
  obtain ⟨event, ambient⟩ := i
  have hcollected : ∀ {seat : Seat} (c : Collected), seat ∈ s.seats → ∀ type src,
      (({ seat with toCollected := c } : Seat).sel type).extDataSource = some src →
        seat.enabled = true ∧ (({ seat with toCollected := c } : Seat).sel type).enabled = true ∧
          s.Advertises src := by
    intro seat c hseat type src hsrc
    have hsel : ({ seat with toCollected := c } : Seat).sel type = seat.sel type := by
      cases type <;> rfl
    rw [hsel] at hsrc ⊢
    exact ⟨(h.2 seat hseat type src hsrc).1, (h.2 seat hseat type src hsrc).2,
      h.1 src (mem_sources.mpr ⟨seat, hseat, type, hsrc⟩)⟩
  cases event with
  | restart config => exact synced_of_no_seats rfl
  | addSeat n name => exact addSeat_synced (hsql 0) h n name
  | removeSeat n => exact seats_synced h fun seat hseat => Or.inl (List.mem_of_mem_filter hseat)
  | dataOffer n | offer n m =>
    rcases onSeat_cases _ _ s with he | ⟨seat, hseat, -, he⟩ <;> rw [step, handle, he]
    · exact h
    · exact putSeat_synced h (hcollected _ (findSeat_mem hseat))
  | selection name offer timerOk =>
    exact selection_synced hs.wf.db.tables hsql hsaved h hkeeps
  | cancelled name current =>
    rcases onSeat_cases name.1 (cancelled name.2 current) s with he | ⟨seat, hseat, -, he⟩ <;>
      rw [step, handle, he]
    · exact h
    · refine putSel_synced h (findSeat_mem hseat) ?_ fun src hsrc => ?_
      · rw [dataSourceEventCancelled]
        split <;> rfl
      · rw [dataSourceEventCancelled] at hsrc
        split at hsrc
        · cases hsrc
        · exact Or.inl hsrc
  | nullTimer name ok =>
    rcases onSeat_cases name.1 (nullTimer (ambient 0) name.2 ok) s with
      he | ⟨seat, hseat, hseatEnabled, he⟩ <;> rw [step, handle, he]
    · exact h
    · exact nullTimer_synced (hsql 0) hs.armedEnabled h hseat hseatEnabled ok
  | toplevel tp =>
    have hsame : ({ s with activeToplevel := tp } : State).SameAnswers s :=
      sameAnswers_of_core ⟨rfl, rfl, rfl, rfl, rfl, rfl⟩
    exact ⟨hsame.synced rfl h.1, h.2⟩
  | connect fd =>
    rw [step, handle, connect]
    split
    · exact h
    · exact synced_ipc h _
  | disconnect fd => exact synced_ipc h _
  | message fd msg =>
    rw [step, handle]
    split
    · exact h
    · rename_i client _
      exact (messageCallback_requests (P := fun x => x.db.WF ∧ x.Synced ∧ x.Placed) ambient client
        (fun _ _ _ hx => ⟨hx.1, synced_ipc hx.2 _⟩)
        (fun n req x hx => ⟨requestCallback_wf hx.1 (ambient n) client.fd req,
          served_synced (hsql n) (requestCallback_served (hsql n) client.fd req x) hx.1.tables
            hx.2⟩)
        msg ⟨hs.wf.db, h⟩).2

end State

/-- In every run whose events spare the sources, each source belongs to the current entry. -/
theorem sources_synced (config : Config) (a : Ambient) {inputs : List Input}
    (hsql : ∀ i ∈ inputs, ∀ n, (i.ambient n).sql = allOk)
    (hkeeps : Meets step State.KeepsAdvertised (boot config a) inputs) :
    (run step (boot config a) inputs).Synced := by
  have hboot : Reachable (boot config a) ∧ (boot config a).db.saved = none ∧
      (boot config a).Synced ∧ (boot config a).Placed := by
    refine ⟨Reachable.boot config a, ?_, State.synced_of_no_seats rfl⟩
    simp only [boot, State.startup, databaseInit, databaseTrim]
    split <;> rfl
  have hinv := run_invariant
    (I := fun s => Reachable s ∧ s.db.saved = none ∧ s.Synced ∧ s.Placed)
    (fun s i hI hC => ⟨hI.1.step i, State.step_saved hC.2 hI.1.wf.db.tables hI.2.1,
      State.step_synced hI.1 hC.2 hI.2.1 hI.2.2 hC.1⟩) hboot (hkeeps.and_of_mem hsql)
  exact hinv.2.2.1

theorem keepsAdvertised_of_not_selection {s : State} {i : Input}
    (h : i.event.isSelection = false) : s.KeepsAdvertised i := by
  intro name seat written timerOk hevent
  rw [hevent] at h
  cases h

instance (s : State) (name : SelectionName) (transient : Bool) :
    ∀ received, Decidable (s.KeepsSources name transient received)
  | none => inferInstanceAs (Decidable (s.sources.isEmpty = true))
  | some content => inferInstanceAs (Decidable (transient = true ∨
      if verdict s.config.dedup content.hash s.db.tables = .ignore then
        s.sources.isEmpty = true ∨ 0 < s.id ∧ s.db.tables.SurvivesId s.config.maxEntries s.id
      else
        s.KeepsEntry (verdict s.config.dedup content.hash s.db.tables) ∨
          s.othersEnabled name = false))

/-- A text is offered on the regular selection. -/
def offeredOnce : List Input := .quiet (.addSeat 0 seat0) :: offerEvents 0 [textPlain]

/-- It is copied, and the daemon owns the primary selection. -/
def copiedOnce : List Input :=
  offeredOnce ++ [.quiet (.selection (0, .regular) (some writtenA) true)]

theorem copiedOnce_undisturbed : ∀ i ∈ copiedOnce, State.Undisturbed i := by
  simp only [copiedOnce, offeredOnce, List.forall_mem_append, List.forall_mem_cons,
    List.not_mem_nil, false_implies, implies_true, and_true]
  exact ⟨⟨undisturbed_quiet nofun, undisturbed_offerEvents _ _⟩, undisturbed_quiet nofun⟩

theorem copiedOnce_keepsAdvertised :
    Meets step State.KeepsAdvertised (boot configInit (.quiet 0)) copiedOnce := by
  have hoffered : ∀ i ∈ offeredOnce, i.event.isSelection = false := by decide +kernel
  have hselection : ∀ seat ∈ State.findSeat (run step (boot configInit (.quiet 0)) offeredOnce) 0,
      (State.withOffer (0, .regular) seat (run step (boot configInit (.quiet 0))
        offeredOnce)).KeepsSources (0, .regular) seat.transient
          (receiveAll configInit writtenA 0 seat.mimeTypes) := by decide +kernel
  have hconfig : (run step (boot configInit (.quiet 0)) offeredOnce).config = configInit := rfl
  rw [copiedOnce, Meets.append]
  refine ⟨Meets.of_mem fun i hi s => keepsAdvertised_of_not_selection (hoffered i hi), ?_, trivial⟩
  intro name seat written timerOk hevent h _
  cases hevent
  rw [hconfig]
  exact hselection seat h.found

/-- The source on the primary selection advertises the text. -/
theorem copiedOnce_synced :
    (run step (boot configInit (.quiet 0)) copiedOnce).Synced :=
  sources_synced configInit (.quiet 0) (fun i hi => (copiedOnce_undisturbed i hi).sql)
    copiedOnce_keepsAdvertised

/-- Nothing can be received from the next offer, while the daemon owns that source. -/
def failedNext : List Input :=
  offerEvents 0 [textPlain] ++ [.quiet (.selection (0, .regular) (some fun _ => none) true)]

/-- The source for the text stays although there is no current entry any more. -/
theorem failedNext_not_synced :
    (∀ i ∈ copiedOnce ++ failedNext, ∀ n, (i.ambient n).sql = allOk) ∧
      ¬ (run step (boot configInit (.quiet 0)) (copiedOnce ++ failedNext)).Synced := by
  constructor
  · simp only [failedNext, List.forall_mem_append, List.forall_mem_singleton]
    exact ⟨fun i hi => (copiedOnce_undisturbed i hi).sql,
      fun i hi => (undisturbed_offerEvents _ _ i hi).sql, fun _ => rfl⟩
  · intro h
    have hentry : (run step (boot configInit (.quiet 0)) (copiedOnce ++ failedNext)).sources.all
        (fun src => src.entry = (run step (boot configInit (.quiet 0))
          (copiedOnce ++ failedNext)).id) = true :=
      List.all_eq_true.mpr fun src hsrc => decide_eq_true (h src hsrc).entry
    exact absurd hentry (by decide +kernel)

end Swayclip
