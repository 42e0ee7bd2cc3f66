import Swayclip.Cli.Listing

/-! # The part of the history that a list shows

`swctl list` asks for 100 entries at a time, as long as it gets that many. The position it starts
from may be negative.
-/

namespace Swayclip
open Library Library.Lines Library.Paging Library.Runs Tables

namespace Cli
variable (roundtrip : Roundtrip) (text : Json → Bytes)

/-- An array of each page that has rows; of a first page even if it has none. -/
def arrays (pages : List (List HistoryRow)) : Bytes :=
  if pages.head? = some [] then ascii "[]".toList ++ [newline]
  else terminate newline ((pages.filter (· ≠ [])).map fun rows => text (historyJson rows))

def shownPages (json : Bool) (pages : List (List HistoryRow)) : Bytes :=
  if json then arrays text pages else terminate newline (pages.flatten.map (rowLine roundtrip))

/-- After the first page, the empty ones are left out. -/
theorem printedPages_more (pages : List (List HistoryRow)) :
    printedPages roundtrip text true true pages =
      terminate newline ((pages.filter (· ≠ [])).map fun rows => text (historyJson rows)) := by
  induction pages with
  | nil => rfl
  | cons rows pages ih =>
    rw [printedPages, ih, printedPage]
    by_cases hrows : rows = []
    · simp [hrows]
    · rw [if_pos rfl, if_neg hrows, List.filter_cons_of_pos (by simpa using hrows)]
      rfl

/-- Pages of which only the last one may be empty are printed as they look. -/
theorem printedPages_eq (json : Bool) {pages : List (List HistoryRow)}
    (hlast : ∀ rest, pages = [] :: rest → rest = []) :
    printedPages roundtrip text json false pages = shownPages roundtrip text json pages := by
  cases json with
  | false =>
    rw [printedPages_lines]
    rfl
  | true =>
    rw [shownPages, if_pos rfl, arrays]
    cases pages with
    | nil => rfl
    | cons rows pages =>
      rw [printedPages, printedPages_more, printedPage, if_pos rfl, List.head?_cons]
      by_cases hrows : rows = []
      · obtain rfl := hlast pages (by rw [hrows])
        rw [if_pos hrows, if_neg Bool.false_ne_true, if_pos (by rw [hrows]), List.filter_nil]
        exact List.append_nil _
      · rw [if_neg hrows, if_neg (by simpa using hrows),
          List.filter_cons_of_pos (by simpa using hrows)]
        rfl

end Cli

namespace State

section Loop
variable (ambient : Request → Ambient) (s : State)

theorem pages_empty_last {off remain : ℤ} {rest : List (List HistoryRow)}
    (h : (s.pages ambient off remain).map (s.pageRows ambient) = [] :: rest) : rest = [] := by
  by_cases hremain : 0 < remain
  · rw [pages_of_pos ambient s off hremain, List.map_cons] at h
    obtain ⟨hempty, hrest⟩ := List.cons.inj h
    have hpart : ¬ ((s.pageRows ambient (off, min 100 remain)).length : ℤ) = min 100 remain := by
      rw [hempty]
      exact (lt_min (by decide) hremain).ne
    rw [if_neg hpart] at hrest
    exact hrest.symm
  · rw [pages_done ambient s off hremain] at h
    cases h

/-- The loop ends after as many pages as make up the number that is asked for. -/
theorem pages_length (off remain : ℤ) :
    (s.pages ambient off remain).length * 100 < remain.toNat + 100 := by
  induction off, remain using State.pages.induct ambient s with
  | case1 off remain hremain ih =>
    rw [pages_of_pos ambient s off hremain, List.length_cons]
    split
    · omega
    · rw [List.length_nil]
      omega
  | case2 off remain hdone =>
    rw [pages_done ambient s off hdone, List.length_nil]
    omega

theorem pageRows_length_le (page : ℤ × ℤ) :
    (s.pageRows ambient page).length ≤ (s.db.tables.history.drop page.1.toNat).length := by
  have hpage : (s.db.tables.getEntries page.1 page.2).length ≤
      (s.db.tables.history.drop page.1.toNat).length := by
    rw [getEntries]
    split
    · exact le_rfl
    · exact List.length_take_le' ..
  refine (List.length_filterMap_le ..).trans ?_
  rwa [List.length_mapIdx]

/-- The position moves on only within the history, so that it stays in the range of its type. -/
theorem pages_offset (off remain : ℤ) : ∀ page ∈ s.pages ambient off remain,
    off ≤ page.1 ∧ (page.1 = off ∨ page.1 ≤ s.db.tables.history.length) := by
  induction off, remain using State.pages.induct ambient s with
  | case1 off remain hremain ih =>
    rw [pages_of_pos ambient s off hremain, List.forall_mem_cons]
    refine ⟨⟨le_rfl, Or.inl rfl⟩, ?_⟩
    split
    · rename_i hfull
      intro page hpage
      by_cases hmore : 0 < remain - 100
      · have hrows := pageRows_length_le ambient s (off, min 100 remain)
        rw [List.length_drop] at hrows
        obtain ⟨hbegin, hpos⟩ := ih page hpage
        dsimp only at hrows
        omega
      · rw [pages_done ambient s _ hmore] at hpage
        cases hpage
    · intro page hpage
      cases hpage
  | case2 off remain hdone =>
    rw [pages_done ambient s off hdone]
    intro page hpage
    cases hpage

end Loop

end State

/-- The list is the part of the history that was asked for exactly if all of its pages arrive, and
unless it needs a second page after a full first one from before the history. -/
theorem list_slice_iff {width : UInt8 → ℕ} (hwidth : ∀ b, width b ≤ 6) {s : State}
    (hreachable : Reachable s) {fd : ℕ} {client : Client} (hclient : s.findClient fd = some client)
    {ambient : Request → Ambient} (hsql : ∀ start n, (ambient (.getHistory start n)).sql = allOk)
    (text : Json → Bytes) (json : Bool) (start number : ℤ) :
    let pages := s.pages ambient start number
    let rows := pages.map (s.pageRows ambient)
    (pages.length * 100 < number.toNat + 100 ∧
      ∀ page ∈ pages, start ≤ page.1 ∧
        (page.1 = start ∨ page.1 ≤ s.db.tables.history.length)) ∧
    ((Cli.commandList (s.roundtrip width ambient fd) text json start number =
          (Cli.shownPages (s.roundtrip width ambient fd) text json rows, true) ∧
        rows.flatten.map HistoryRow.id =
          ((s.db.tables.history.drop start.toNat).take number.toNat).map Entry.id) ↔
      (∀ page ∈ pages, s.PageArrives width ambient page) ∧
        (0 ≤ start ∨ number ≤ 100 ∨ s.db.tables.history.length < 100)) := by
  intro pages rows
  refine ⟨⟨State.pages_length ambient s start number, State.pages_offset ambient s start number⟩,
    ?_⟩
  have hprints := State.listPages_eq text hwidth ambient hclient json start number false
  rw [Cli.printedPages_eq _ _ _ fun _ h => State.pages_empty_last ambient s h] at hprints
  have hnodup : (s.db.tables.history.map Entry.id).Nodup :=
    history_idDistinct hreachable.wf.db.tables
  have hids : rows.flatten.map HistoryRow.id =
      paged 100 (s.db.tables.history.map Entry.id) start number :=
    State.listed_paged hsql s start number
  have hslice := paged_eq_window_iff (by decide : (0 : ℤ) < 100) hnodup start number
  rw [← window_map, window, List.length_map] at hslice
  rw [hids, hslice, Nat.cast_lt_ofNat]
  constructor
  · rintro ⟨hresult, hwhole⟩
    exact ⟨hprints.2 (congrArg Prod.snd hresult), hwhole⟩
  · rintro ⟨harrive, hwhole⟩
    exact ⟨hprints.1 harrive, hwhole⟩

/-- A text is listed from a position before the history. -/
theorem copiedText_slice :
    let s := copiedAs textPlain
    let rows := (s.pages (fun _ => .quiet 0) (-5) 3).map (s.pageRows fun _ => .quiet 0)
    Cli.commandList (s.roundtrip plainWidth (fun _ => .quiet 0) 0) Json.plainText true (-5) 3 =
        (Cli.shownPages (s.roundtrip plainWidth (fun _ => .quiet 0) 0) Json.plainText true rows,
          true) ∧
      rows.flatten.map HistoryRow.id = (s.db.tables.history.take 3).map Entry.id := by
  obtain ⟨client, hclient⟩ : ∃ client, (copiedAs textPlain).findClient 0 = some client :=
    Option.isSome_iff_exists.mp (by decide +kernel)
  have hreachable : Reachable (copiedAs textPlain) := (firstSession_reachable configInit).run _
  have hpages : (copiedAs textPlain).pages (fun _ => .quiet 0) (-5) 3 = [(-5, 3)] := by
    rw [State.pages_of_pos _ _ _ (by decide), if_neg (by decide +kernel)]
    rfl
  refine (list_slice_iff plainWidth_le hreachable hclient (fun _ _ => rfl) Json.plainText true
    (-5) 3).2.mpr ⟨?_, Or.inr (Or.inl (by decide))⟩
  rw [hpages]
  intro page hpage
  rw [List.mem_singleton.mp hpage]
  exact ⟨rfl, by decide +kernel⟩

/-! ## A hundred entries -/

def keepAll : Config := { configInit with dedup := .none, setOnStartup := false }

def textSession : List Input :=
  [.quiet (.restart keepAll), .quiet (.addSeat 0 seat0)] ++ copy (0, .regular) [(textPlain, [65])]

def textWritten (i : ℕ) : Option Bytes := [(textPlain, [(65 : UInt8)])][i]?.map Prod.snd

def textSessions : ℕ → State
  | 0 => boot keepAll (.quiet 0)
  | n + 1 => run step (textSessions n) textSession

theorem textSession_delivers {s : State} (hconfig : s.config = keepAll) (hsaved : s.db.saved = none)
    (hshort : s.db.tables.entries.length ≤ 100) : ∃ s' seat,
    run step s textSession =
      step s' (.quiet (.selection (0, .regular) (some textWritten) true)) ∧
    s'.config = keepAll ∧ s'.db = ⟨s.db.tables, none⟩ ∧ seat.mimeTypes = [textPlain] ∧
    seat.transient = false ∧ State.Delivers s' (0, .regular) seat := by
  let started := step s (.quiet (.restart keepAll))
  let seated := step started (.quiet (.addSeat 0 seat0))
  have hfile : s.file = s.db.tables := by
    rw [State.file, hconfig, Database.committed, hsaved]
    rfl
  have hdb : seated.db = ⟨s.db.tables, none⟩ := by
    have htrim : started.db = ⟨(s.file.trim 100).2, none⟩ := rfl
    change started.db = _
    rw [htrim, hfile, trim_of_short hshort]
  obtain ⟨seat, hseat, hreaches⟩ : ∃ seat, seated.findSeat 0 = some seat ∧
      State.reaches .regular { seat with toCollected := ⟨[textPlain], false, false⟩ } = true :=
    ⟨_, rfl, rfl⟩
  have hdelivers := offerEvents_delivers hseat (announce_unfiltered [textPlain]) hreaches
  have hcore := State.offerEvents_core 0 [textPlain] seated
  have hrun : run step s textSession = step (run step seated (offerEvents 0 [textPlain]))
      (.quiet (.selection (0, .regular) (some textWritten) true)) := by
    rw [textSession, copy, run_append, run_cons, run_cons, run_nil, run_append, run_cons, run_nil]
    rfl
  exact ⟨run step seated (offerEvents 0 [textPlain]), _, hrun, hcore.config, hcore.db.trans hdb,
    rfl, rfl, hdelivers⟩

theorem textSessions_stored (n : ℕ) (hn : n ≤ 100) :
    Reachable (textSessions n) ∧ (textSessions n).config = keepAll ∧
      (textSessions n).db.saved = none ∧ (textSessions n).db.tables.entries.length = n := by
  induction n with
  | zero => exact ⟨.boot keepAll (.quiet 0), rfl, State.startup_saved .., rfl⟩
  | succ n ih =>
    obtain ⟨hreachable, hconfig, hsaved, hlength⟩ := ih (by omega)
    obtain ⟨s, seat, hrun, hkeeps, hdb, hmime, htransient, hdelivers⟩ :=
      textSession_delivers hconfig hsaved (by omega)
    have hwf : s.db.tables.WF := by
      rw [hdb]
      exact hreachable.wf.db.tables
    have hreceived : receiveAll s.config textWritten 0 seat.mimeTypes =
        some [(textPlain, [65])] := by
      rw [hkeeps, hmime]
      rfl
    have hverdict : verdict s.config.dedup (Content.hash [(textPlain, [65])]) s.db.tables =
        .add := by
      rw [hkeeps]
      rfl
    have hshort : s.db.tables.entries.length < s.config.maxEntries := by
      rw [hdb, hkeeps]
      change (textSessions n).db.tables.entries.length < 100
      omega
    have hnone : s.db.saved = none := by rw [hdb]
    obtain ⟨t, f, hadd, hrows, hconfig'⟩ := step_adds hwf hnone hdelivers (by rw [hmime]; simp)
      htransient (fun _ => .quiet 0) rfl true hreceived hverdict hshort
    rw [textSessions]
    refine ⟨hreachable.run textSession, ?_, ?_, ?_⟩
    · rw [hrun]
      exact hconfig'.trans hkeeps
    · rw [hrun]
      exact State.step_saved (fun _ => rfl) hwf hnone
    · rw [hrun]
      refine (congrArg List.length hrows.entries).trans ?_
      rw [mapAttributes, List.length_map, entries_addEntry hadd, List.length_append,
        List.length_map, hdb]
      exact congrArg (· + 1) hlength

/-- From 50 positions before a hundred entries on, the second page begins in the middle. -/
theorem listed_twice {s : State} (hhistory : s.db.tables.history.length = 100) :
    (s.listed (fun _ => .quiet 0) (-50) 150).map HistoryRow.id =
      s.db.tables.history.map Entry.id ++ (s.db.tables.history.drop 50).map Entry.id := by
  have hlisted : (s.listed (fun _ => .quiet 0) (-50) 150).map HistoryRow.id =
      paged 100 (s.db.tables.history.map Entry.id) (-50) 150 :=
    State.listed_paged (fun _ _ => rfl) s (-50) 150
  have hfirst : window (s.db.tables.history.map Entry.id) (-50) 100 =
      s.db.tables.history.map Entry.id := by
    rw [window_neg (by decide), List.take_of_length_le]
    rw [List.length_map, hhistory]
    rfl
  have hsecond : window (s.db.tables.history.map Entry.id) 50 50 =
      (s.db.tables.history.drop 50).map Entry.id := by
    rw [window, List.map_drop, List.take_of_length_le]
    · rfl
    · rw [List.length_drop, List.length_map, hhistory]
      decide
  rw [hlisted, paged_of_pos (by decide) (by decide), min_eq_left (by decide), hfirst,
    List.length_map, hhistory, if_pos Nat.cast_ofNat, show (-50 + 100 : ℤ) = 50 from rfl,
    show (150 - 100 : ℤ) = 50 from rfl, paged_eq_window (by decide) (by decide), hsecond]

def hundredTexts : State := step (textSessions 100) (.quiet (.connect 0))

/-- From 50 positions before the history on, 150 entries are asked for: the entries from position 50
on are listed a second time. -/
theorem hundredTexts_not_slice : Reachable hundredTexts ∧
    (∃ client, hundredTexts.findClient 0 = some client) ∧
    hundredTexts.db.tables.history.length = 100 ∧
    (hundredTexts.listed (fun _ => .quiet 0) (-50) 150).map HistoryRow.id =
      hundredTexts.db.tables.history.map Entry.id ++
        (hundredTexts.db.tables.history.drop 50).map Entry.id ∧
    ∀ (width : UInt8 → ℕ) (text : Json → Bytes) (json : Bool),
      let rows := (hundredTexts.pages (fun _ => .quiet 0) (-50) 150).map
        (hundredTexts.pageRows fun _ => .quiet 0)
      ¬ (Cli.commandList (hundredTexts.roundtrip width (fun _ => .quiet 0) 0) text json (-50) 150 =
            (Cli.shownPages (hundredTexts.roundtrip width (fun _ => .quiet 0) 0) text json rows,
              true) ∧
          rows.flatten.map HistoryRow.id =
            (hundredTexts.db.tables.history.take 150).map Entry.id) := by
  obtain ⟨hreachable, -, -, hlength⟩ := textSessions_stored 100 le_rfl
  have hhistory : hundredTexts.db.tables.history.length = 100 := by
    rw [hundredTexts, step_connect_db, history,
      (Ranking.sortDesc_perm Entry.sortIndex _).length_eq, hlength]
  refine ⟨hreachable.step _, step_connect_found _ 0, hhistory, listed_twice hhistory, ?_⟩
  rintro width text json rows ⟨-, hslice⟩
  have hlengths := congrArg List.length ((listed_twice hhistory).symm.trans hslice)
  simp only [List.length_append, List.length_map, List.length_drop, List.length_take, hhistory]
    at hlengths
  omega

end Swayclip
