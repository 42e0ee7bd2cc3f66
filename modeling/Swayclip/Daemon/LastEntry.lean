import Swayclip.Daemon.Committed

/-! # The entry that a session starts with

The setting that names the last entry is written when an entry becomes current, and left alone
when rows are deleted. A session that starts from it starts from a row exactly if the row has
outlived the last session and outlives the initial trim.
-/

namespace Swayclip
open Library.Runs Tables

/-! ## Every entry has types -/

/-- A source for an entry advertises at least one type. -/
def Tables.HaveTypes (t : Tables) : Prop := ∀ e ∈ t.entries, t.getMimeTypes e.id ≠ []

theorem haveTypes_change {t t' : Tables} (h : t.HaveTypes) (hc : Change t t') : t'.HaveTypes := by
  intro e' he'
  obtain ⟨e, he, hid, -⟩ := hc.mem he'
  have htypes := h e he
  rw [hid] at htypes
  cases hc with
  | rewrite _ hmime => rwa [getMimeTypes, hmime, ← getMimeTypes]
  | delete ids =>
    rw [delEntries_eq, List.mem_filter] at he'
    rwa [getMimeTypes_delEntries (by simpa using he'.2)]

theorem haveTypes_changes {t t' : Tables} (h : t.HaveTypes) (hc : Changes t t') : t'.HaveTypes := by
  induction hc with
  | refl => exact h
  | tail _ hstep ih => exact haveTypes_change ih hstep

theorem haveTypes_addEntry {t t' : Tables} {now : ℤ} {content : Content} (h : t.HaveTypes)
    (hwf : t.WF) (hcontent : content ≠ []) (hadd : t.addEntry now content = some t') :
    t'.HaveTypes := by
  intro e' he'
  rw [entries_addEntry hadd, List.mem_append, List.mem_map, List.mem_singleton] at he'
  rcases he' with ⟨e, he, rfl⟩ | rfl
  · have hid : (if e.hash = some content.hash then { e with hash := none } else e).id = e.id := by
      split <;> rfl
    obtain ⟨m, hm⟩ := List.exists_mem_of_ne_nil _ (h e he)
    rw [hid]
    refine List.ne_nil_of_mem (a := m) ?_
    rw [← mimeRow_isSome, mimeRow_addEntry_of_ne hadd (id_lt_nextId he).ne]
    exact mimeRow_isSome.mpr hm
  · obtain ⟨e, he⟩ := List.exists_mem_of_ne_nil content hcontent
    refine List.ne_nil_of_mem (a := e.1) ?_
    rw [← mimeRow_isSome, mimeRow_addEntry hwf hadd, Option.isSome_map, Content.first_isSome]
    exact List.mem_map_of_mem he

theorem file_haveTypes {s : State} (h : Reachable s) : s.file.HaveTypes :=
  (State.committed_of_reachable (I := HaveTypes) nofun (fun _ _ => haveTypes_changes)
    (fun _ _ _ _ => haveTypes_addEntry) h).2

/-! ## Starting a session -/

namespace State

/-- The session that has just started has no current entry or one that is a row, and the first
seat is given no source without types. -/
structure StartsFromRow (s : State) : Prop where
  row : s.id = -1 ∨ s.db.tables.idExists s.id = true
  types : ∀ (a : Ambient) (globalName : ℕ) (name : CString), (∀ n, a.sql .getMimeTypes n = true) →
    ∀ seat ∈ (s.addSeat a globalName name).seats, ∀ type,
      ∀ source ∈ (seat.sel type).extDataSource, source.mimeTypes ≠ []

/-- If the session reads which entry was last, the file names none, or one that is a row of the
file and survives the initial trim. -/
def LoadsRow (config : Config) (a : Ambient) (t : Tables) : Prop :=
  config.setOnStartup = true → config.persist = true → a.sql .getSetting 0 = true →
    ∀ id, t.lastEntry = some id → id = -1 ∨
      if a.sql .trim 0 then t.SurvivesId config.maxEntries id else t.idExists id = true

theorem delEntries_lastEntry (t : Tables) (ids : List ℤ) :
    (t.delEntries ids).lastEntry = t.lastEntry := by
  rw [delEntries_eq]

/-- The id that a session starts with is a row or not as its setting says. -/
theorem startup_row_iff {config : Config} {a : Ambient} {disk : Tables} (hdisk : disk.WF) :
    (startup config a disk).id = -1 ∨
        (startup config a disk).db.tables.idExists (startup config a disk).id = true ↔
      LoadsRow config a disk := by
  simp only [startup, LoadsRow, databaseGetSetting, databaseInit, databaseTrim]
  cases config.setOnStartup with
  | false => simp
  | true =>
    cases a.sql .getSetting 0 with
    | false => simp
    | true =>
      cases config.persist with
      | false =>
        cases a.sql .trim 0 with
        | false => simp [Tables.empty]
        | true => simp [trim_tables, delEntries_lastEntry, Tables.empty]
      | true =>
        cases a.sql .trim 0 with
        | false => cases hlast : disk.lastEntry <;> simp [hlast]
        | true =>
          simp only [if_true, trim_tables, delEntries_lastEntry, ← idExists_trim hdisk]
          cases disk.lastEntry <;> simp

/-- A source for a row with types advertises them. -/
theorem addSeat_source {a : Ambient} {s : State} (hseats : s.seats = [])
    (hread : ∀ n, a.sql .getMimeTypes n = true)
    (hid : s.id = -1 ∨ s.db.tables.getMimeTypes s.id ≠ [])
    (hzero : s.id ≠ 0) {globalName : ℕ} {name : CString} {seat : Seat}
    (hseat : seat ∈ (s.addSeat a globalName name).seats) {type : SelectionType} {source : Source}
    (hsource : source ∈ (seat.sel type).extDataSource) : source.mimeTypes ≠ [] := by
  have hresult : ∀ selection, ∀ source ∈ (s.setCallback a.sql selection).1,
      source.mimeTypes ≠ [] := by
    intro selection source hsource
    rw [setCallback, wsignalSet, hread] at hsource
    split at hsource
    · rename_i hpos
      obtain rfl := Option.some.inj hsource
      have htypes := hid.resolve_left (by omega)
      simpa [offeredTypes, hzero, databaseGetMimeTypes] using htypes
    · cases hsource
  have hnone : ∀ type, ((newSeat s.config globalName name).sel type).extDataSource = none := by
    intro type
    simp only [newSeat]
    cases type <;> rfl
  have hfind : s.findSeat globalName = none := by rw [findSeat, hseats, List.find?_nil]
  rw [addSeat, hfind, hseats] at hseat
  obtain rfl := List.mem_singleton.mp hseat
  split at hsource
  · rw [seatSet_sel] at hsource
    split at hsource
    · rw [selectionSet] at hsource
      split at hsource
      · rw [hnone] at hsource
        cases hsource
      · exact hresult _ source hsource
    · rw [hnone] at hsource
      cases hsource
  · rw [hnone] at hsource
    cases hsource

theorem startup_startsFromRow_iff {config : Config} {a : Ambient} {disk : Tables}
    (hdisk : disk.WF) (htypes : disk.HaveTypes) :
    (startup config a disk).StartsFromRow ↔ LoadsRow config a disk := by
  rw [← startup_row_iff hdisk]
  refine ⟨StartsFromRow.row, fun hrow => ⟨hrow, ?_⟩⟩
  intro a' globalName name hread seat hseat type source hsource
  have hwf := (startup_wf hdisk config a).db.tables
  have hstarted : (startup config a disk).db.tables.HaveTypes := by
    refine haveTypes_changes ?_ (startup_changes config a disk)
    split
    · exact htypes
    · exact nofun
  refine addSeat_source rfl hread (hrow.imp_right fun h => ?_) ?_ hseat hsource
  · obtain ⟨e, he, hid⟩ := idExists_iff.mp h
    exact hid ▸ hstarted e he
  · rcases hrow with h | h
    · omega
    · obtain ⟨e, he, hid⟩ := idExists_iff.mp h
      have := hwf.idPos e he
      omega

end State

/-- In every run, whatever fails, the sessions that start from no entry or from a row are those
whose file names none as the last one, or a row that survives the initial trim. -/
theorem restarts_load_row_iff (config : Config) (a : Ambient) (inputs : List Input) :
    Meets step (fun s i => ∀ next, i.event = .restart next → (step s i).StartsFromRow)
        (boot config a) inputs ↔
      Meets step (fun s i => ∀ next, i.event = .restart next →
        State.LoadsRow next (i.ambient 0) s.file) (boot config a) inputs := by
  refine Meets.iff_of_invariant (I := Reachable) (fun s i _ hs => ?_) (fun s i _ hs _ => hs.step i)
    (.boot config a)
  refine forall_congr' fun next => imp_congr_right fun hevent => ?_
  obtain ⟨event, ambient⟩ := i
  obtain rfl : event = .restart next := hevent
  exact State.startup_startsFromRow_iff (State.file_wf hs.wf) (file_haveTypes hs)

/-- A text is copied, and its entry deleted. -/
def copiedThenDeleted : List Input :=
  [.quiet (.addSeat 0 seat0), .quiet (.connect 0)] ++ copy (0, .regular) [(textPlain, [65])] ++
    [.quiet (.message 0 (some (.deleteEntry (some 1))))]

/-- The next session starts with the deleted entry. -/
theorem copiedThenDeleted_not_row :
    ¬ Meets step (fun s i => ∀ next, i.event = .restart next → (step s i).StartsFromRow)
      (boot configInit (.quiet 0)) (copiedThenDeleted ++ [.quiet (.restart configInit)]) := by
  intro h
  have hrow := ((Meets.append.mp h).2.1 configInit rfl).row
  revert hrow
  decide +kernel

end Swayclip
