import Swayclip.Cli.List
import Swayclip.Daemon.HistoryReply
import Swayclip.Library.Paging

/-! # The list of a history

Where `swctl list` gets all of its pages, it prints one line for each entry, from which
`swctl set --decode` gets its id, unless the type of binary data or of an image has a newline.
-/

namespace Swayclip
open Library Library.Lines Library.Runs Tables

/-! ## What the daemon answers -/

/-- What `roundtrip` makes of a reply, which has to fit into a message. -/
def Message.deliver (width : UInt8 → ℕ) (msg : Message) : Option Cli.Message :=
  if msg.toJson.size width ≤ maxPayload then some msg.atClient else none

/-- A reply is obtained exactly if the client's end accepts it. -/
theorem deliver_isSome_iff {T : JsonTokener Json} {text : Json → Bytes} {width : UInt8 → ℕ}
    (hplain : Json.Plain width text) {msg : Message} (hpos : 1 ≤ msg.toJson.size width)
    (hdoc : T.Document (text msg.toJson) msg.toJson) (memfd : Bytes → ℕ) :
    (msg.deliver width).isSome = true ↔ Link.Accepts T text true (msg.outgoing memfd) := by
  have hsize : (text (msg.outgoing memfd).payload).length = msg.toJson.size width := hplain _
  rw [Link.accepts_iff (by rwa [hsize]) hdoc, hsize, Message.deliver]
  split
  · exact iff_of_true rfl ‹_›
  · exact iff_of_false (fun h => by cases h) ‹_›

namespace State

/-- What `roundtrip` obtains from the daemon for the client, in a state that does not change. -/
def roundtrip (width : UInt8 → ℕ) (ambient : Request → Ambient) (fd : ℕ) (s : State) :
    Cli.Roundtrip :=
  fun req => ((s.exchange (ambient req) fd req).replies.head?).bind (Message.deliver width)

def pageRows (ambient : Request → Ambient) (s : State) (page : ℤ × ℤ) : List HistoryRow :=
  s.historyPage (ambient (.getHistory (some page.1) (some page.2))) page.1 page.2

/-- The pages that are asked for: one after the other as long as they are full. -/
def pages (ambient : Request → Ambient) (s : State) (off remain : ℤ) : List (ℤ × ℤ) :=
  if 0 < remain then
    (off, min 100 remain) ::
      if (s.pageRows ambient (off, min 100 remain)).length = min 100 remain then
        pages ambient s (off + 100) (remain - 100)
      else []
  else []
termination_by remain.toNat
decreasing_by omega

def listed (ambient : Request → Ambient) (s : State) (start number : ℤ) : List HistoryRow :=
  (s.pages ambient start number).flatMap (s.pageRows ambient)

theorem pages_of_pos (ambient : Request → Ambient) (s : State) (off : ℤ) {remain : ℤ}
    (h : 0 < remain) :
    s.pages ambient off remain = (off, min 100 remain) ::
      if (s.pageRows ambient (off, min 100 remain)).length = min 100 remain then
        s.pages ambient (off + 100) (remain - 100)
      else [] := by
  rw [pages, if_pos h]

theorem pages_done (ambient : Request → Ambient) (s : State) (off : ℤ) {remain : ℤ}
    (h : ¬ 0 < remain) : s.pages ambient off remain = [] := by
  rw [pages, if_neg h]

theorem listed_of_pos (ambient : Request → Ambient) (s : State) (off : ℤ) {remain : ℤ}
    (h : 0 < remain) :
    s.listed ambient off remain = s.pageRows ambient (off, min 100 remain) ++
      if (s.pageRows ambient (off, min 100 remain)).length = min 100 remain then
        s.listed ambient (off + 100) (remain - 100)
      else [] := by
  rw [listed, pages_of_pos ambient s off h, List.flatMap_cons]
  split <;> rfl

/-- The page is granted and fits into a message. -/
structure PageArrives (width : UInt8 → ℕ) (ambient : Request → Ambient) (s : State)
    (page : ℤ × ℤ) : Prop where
  granted : (ambient (.getHistory (some page.1) (some page.2))).sql .getEntries 0 = true
  fits : (historyJson (s.pageRows ambient page)).size width ≤ maxPayload

section Replies
variable {width : UInt8 → ℕ} {ambient : Request → Ambient} {fd : ℕ} {s : State} {client : Client}

theorem roundtrip_of_reply (hclient : s.findClient fd = some client) {req : Request} {msg : Message}
    (hmsg : msg.isEvent = false)
    (h : (s.onClient fd Client.undelayed).requestCallback (ambient req) fd req =
      (s.onClient fd Client.undelayed).onClient fd (Client.ipcCtWriteMsg msg)) :
    s.roundtrip width ambient fd req = msg.deliver width := by
  have hundelayed := findClient_onClient_self (f := Client.undelayed) (fun _ => rfl) hclient
  have hreplied := findClient_onClient_self (f := Client.ipcCtWriteMsg msg) (fun _ => rfl)
    hundelayed
  have hmessages : (s.exchange (ambient req) fd req).messages = [msg] := by
    rw [exchange, h]
    simp only [hreplied]
    rfl
  rw [roundtrip, Exchange.replies, hmessages, List.filter_cons_of_pos (by rw [hmsg]; rfl)]
  rfl

theorem roundtrip_getHistory (width : UInt8 → ℕ) (ambient : Request → Ambient)
    (hclient : s.findClient fd = some client) (page : ℤ × ℤ) :
    (s.PageArrives width ambient page ∧
      s.roundtrip width ambient fd (.getHistory (some page.1) (some page.2)) =
        some (Message.history (s.pageRows ambient page)).atClient) ∨
    (¬ s.PageArrives width ambient page ∧
      ∀ resp ∈ s.roundtrip width ambient fd (.getHistory (some page.1) (some page.2)),
        ∀ entries, resp.obj ≠ .array entries) := by
  cases hsql : (ambient (.getHistory (some page.1) (some page.2))).sql .getEntries 0 with
  | false =>
    refine Or.inr ⟨fun h => by simp [h.granted] at hsql, ?_⟩
    have hreply : s.roundtrip width ambient fd (.getHistory (some page.1) (some page.2)) =
        (Message.error (ipcDbError.take 255)).deliver width :=
      roundtrip_of_reply hclient rfl (by
        simp only [requestCallback, serveGetHistory, databaseGetEntries, hsql]
        rfl)
    rw [hreply]
    rintro resp hresp entries
    unfold Message.deliver at hresp
    split at hresp
    · obtain rfl := Option.some.inj hresp
      exact fun h => by cases h
    · cases hresp
  | true =>
    have hreply : s.roundtrip width ambient fd (.getHistory (some page.1) (some page.2)) =
        (Message.history (s.pageRows ambient page)).deliver width :=
      roundtrip_of_reply hclient rfl (by
        simp only [requestCallback, serveGetHistory, databaseGetEntries, hsql, if_true]
        rfl)
    rw [hreply, Message.deliver]
    split
    · exact Or.inl ⟨⟨hsql, ‹_›⟩, rfl⟩
    · rename_i hlarge
      exact Or.inr ⟨fun h => hlarge h.fits, fun resp hresp => by cases hresp⟩

/-- The data of an entry, or an error, always arrives. -/
theorem roundtrip_getData (hwidth : ∀ b, width b ≤ 6) (ambient : Request → Ambient)
    (hclient : s.findClient fd = some client) (id : ℤ) (mimeType : CString) : ∃ resp stuff,
      s.roundtrip width ambient fd (.getData (some id) (some mimeType)) = some resp ∧
        resp.auxData = some stuff := by
  let req : Request := .getData (some id) (some mimeType)
  let s' := s.onClient fd Client.undelayed
  have harrives : ∀ msg : Message, msg.isEvent = false → msg.toJson.size width ≤ maxPayload →
      s'.requestCallback (ambient req) fd req = s'.onClient fd (Client.ipcCtWriteMsg msg) →
      ∃ resp stuff, s.roundtrip width ambient fd req = some resp ∧ resp.auxData = some stuff := by
    intro msg hmsg hsize h
    refine ⟨msg.atClient, msg.data, ?_, rfl⟩
    rw [roundtrip_of_reply hclient hmsg h, Message.deliver, if_pos hsize]
  have hrefused : ∀ desc, s'.requestCallback (ambient req) fd req = s'.sendError fd desc →
      ∃ resp stuff, s.roundtrip width ambient fd req = some resp ∧ resp.auxData = some stuff :=
    fun desc h => harrives (.error (desc.take 255)) rfl
      (error_size hwidth (List.length_take_le ..)) h
  have hserve : s'.requestCallback (ambient req) fd req =
      s'.serveGetData (ambient req) fd (some id) (some mimeType) := rfl
  rw [serveGetData] at hserve
  cases hdata : databaseGetData ((ambient req).sql .getDataRowid 0) id mimeType s'.db with
  | none =>
    simp only [hdata] at hserve
    exact hrefused ipcDbError hserve
  | some data =>
    cases hmemfd : memfdCreate mimeType (ambient req).memfd with
    | ok =>
      simp only [hdata, hmemfd] at hserve
      refine harrives (.success (some data)) rfl ?_ hserve
      simp [Message.toJson, Json.size, Json.fieldsSize, maxPayload]
    | notCreated strerror =>
      simp only [hdata, hmemfd] at hserve
      exact hrefused _ hserve
    | notMapped =>
      simp only [hdata, hmemfd] at hserve
      exact hrefused _ hserve
    | notSealed =>
      simp only [hdata, hmemfd] at hserve
      exact hrefused _ hserve

end Replies

end State

/-! ## Rows -/

namespace HistoryRow

def shown (row : HistoryRow) : Cli.Shown where
  id := row.id
  pinned := row.pinned
  current := row.current
  contentType := CString.ofBytes (row.contentType.getD [])
  mimeType := CString.ofBytes (row.contentMimeType.getD [])

/-- The line for the row is broken by its type. -/
def Breaks (row : HistoryRow) : Prop :=
  row.shown.PrintsType ∧ Cli.newline ∈ row.shown.mimeType.bytes

structure Built (row : HistoryRow) (e : Entry) : Prop where
  id : row.id = e.id
  contentType : ∃ value, row.contentType = some (attributeText value)
  contentMimeType : ∃ value, row.contentMimeType = some (attributeText value)

theorem extractShown_toJson {row : HistoryRow} {e : Entry} (h : row.Built e) :
    Cli.extractShown row.toJson = some row.shown := by
  obtain ⟨contentType, htype⟩ := h.contentType
  obtain ⟨contentMime, hmime⟩ := h.contentMimeType
  cases row
  dsimp only at htype hmime
  subst htype hmime
  rfl

end HistoryRow

theorem State.getEntryCallback_built {sql : Sql} {s : State} {i : ℕ} {e : Entry} {row : HistoryRow}
    (h : s.getEntryCallback sql i e = some row) : row.Built e := by
  unfold getEntryCallback at h
  split at h
  · cases h
  · split at h
    · cases h
    · split at h
      · cases h
      · obtain rfl := Option.some.inj h
        exact ⟨rfl, ⟨_, rfl⟩, ⟨_, rfl⟩⟩

theorem State.mem_pageRows {ambient : Request → Ambient} {s : State} {page : ℤ × ℤ}
    {row : HistoryRow} (h : row ∈ s.pageRows ambient page) :
    ∃ e ∈ s.db.tables.entries, row.Built e := by
  obtain ⟨row', hrow, rfl⟩ := List.mem_filterMap.mp h
  obtain ⟨i, hi, hbuilt⟩ := List.mem_mapIdx.mp hrow
  exact ⟨_, mem_getEntries (List.getElem_mem hi), getEntryCallback_built hbuilt⟩

/-! ## Lines -/

namespace Cli

section Print
variable {roundtrip : Roundtrip}

def rowLine (roundtrip : Roundtrip) (row : HistoryRow) : Bytes :=
  match roundtrip (.getData (some row.shown.id) (some row.shown.mimeType)) with
  | none => []
  | some dataResp => (row.shown.line dataResp).1

theorem printRows_rows (hdata : ∀ id mimeType, ∃ resp stuff,
      roundtrip (.getData (some id) (some mimeType)) = some resp ∧ resp.auxData = some stuff)
    {rows : List HistoryRow} (hrows : ∀ row ∈ rows, ∃ e, row.Built e) :
    printRows roundtrip (rows.map HistoryRow.toJson) =
      (terminate newline (rows.map (rowLine roundtrip)), true) := by
  induction rows with
  | nil => rfl
  | cons row rows ih =>
    obtain ⟨e, hbuilt⟩ := hrows row List.mem_cons_self
    obtain ⟨resp, stuff, hresp, hstuff⟩ := hdata row.shown.id row.shown.mimeType
    have hline : row.shown.line resp = (rowLine roundtrip row, true) := by
      rw [rowLine, hresp]
      exact Prod.ext rfl (line_goes_on hstuff)
    rw [List.map_cons, printRows, HistoryRow.extractShown_toJson hbuilt]
    simp only [hresp, hline, ih fun row hrow => hrows row (List.mem_cons_of_mem _ hrow)]
    rfl

theorem newline_mem_rowLine_iff (hdata : ∀ id mimeType, ∃ resp stuff,
      roundtrip (.getData (some id) (some mimeType)) = some resp ∧ resp.auxData = some stuff)
    (row : HistoryRow) : newline ∈ rowLine roundtrip row ↔ row.Breaks := by
  obtain ⟨resp, stuff, hresp, hstuff⟩ := hdata row.shown.id row.shown.mimeType
  rw [rowLine, hresp]
  exact newline_mem_line_iff hstuff

theorem rowLine_numbered (hdata : ∀ id mimeType, ∃ resp stuff,
      roundtrip (.getData (some id) (some mimeType)) = some resp ∧ resp.auxData = some stuff)
    (row : HistoryRow) : ∃ preview, rowLine roundtrip row = numbered row.id preview := by
  obtain ⟨resp, -, hresp, -⟩ := hdata row.shown.id row.shown.mimeType
  rw [rowLine, hresp]
  exact line_numbered row.shown resp

end Print

/-- What is printed of a page. -/
def printedPage (roundtrip : Roundtrip) (text : Json → Bytes) (json first : Bool)
    (rows : List HistoryRow) : Bytes :=
  if json then
    if rows = [] then if first then [] else ascii "[]".toList ++ [newline]
    else text (historyJson rows) ++ [newline]
  else terminate newline (rows.map (rowLine roundtrip))

/-- What is printed of the pages; `first` is set once there has been one. -/
def printedPages (roundtrip : Roundtrip) (text : Json → Bytes) (json : Bool) (first : Bool)
    (pages : List (List HistoryRow)) : Bytes :=
  match pages with
  | [] => []
  | rows :: pages =>
    printedPage roundtrip text json first rows ++ printedPages roundtrip text json true pages

/-- Without `--json`, there is a line for each row. -/
theorem printedPages_lines (roundtrip : Roundtrip) (text : Json → Bytes) (first : Bool)
    (pages : List (List HistoryRow)) :
    printedPages roundtrip text false first pages =
      terminate newline (pages.flatten.map (rowLine roundtrip)) := by
  induction pages generalizing first with
  | nil => rfl
  | cons rows pages ih =>
    rw [printedPages, ih, printedPage, List.flatten_cons, List.map_append, terminate, terminate,
      terminate, List.flatMap_append]
    rfl

/-- The line stands for the entry: it begins with the id and a tab, and `set --decode` asks for the
entry when it is given the line, with or without its newline. -/
structure StandsFor (line : Bytes) (row : HistoryRow) : Prop where
  begins : Decimal.decimal row.id ++ ascii ['\t'] <+: line
  decodes : ∀ tail ∈ [[], [newline]],
    commandSet false true (line ++ tail) none = some (.setClipboard (some row.id))

theorem numbered_standsFor {row : HistoryRow} (hmin : longMin ≤ row.id) (hmax : row.id ≤ longMax)
    (preview : Bytes) : StandsFor (numbered row.id preview) row := by
  refine ⟨List.prefix_append _ _, fun tail _ => ?_⟩
  have hline : numbered row.id preview ++ tail = numbered row.id (preview ++ tail) :=
    List.append_assoc ..
  have hlength : (numbered row.id (preview ++ tail)).length ≠ 0 := by
    simp [numbered, ascii]
  rw [hline, commandSet, if_pos rfl, if_neg hlength, strtol_numbered hmin hmax]

end Cli

/-! ## Pages -/

namespace State

section Pages
variable {width : UInt8 → ℕ} {ambient : Request → Ambient} {fd : ℕ} {s : State} {client : Client}
variable (text : Json → Bytes) {page : ℤ × ℤ}

theorem printEntry_arrives (hwidth : ∀ b, width b ≤ 6) (hclient : s.findClient fd = some client)
    (hpage : s.PageArrives width ambient page) (hpos : 0 < page.2) (json first : Bool) :
    Cli.printEntry (s.roundtrip width ambient fd) text page.1 page.2 json (!first) =
      (Cli.printedPage (s.roundtrip width ambient fd) text json first (s.pageRows ambient page),
        some ((s.pageRows ambient page).length ≠ page.2 : Bool)) := by
  have hbuilt : ∀ row ∈ s.pageRows ambient page, ∃ e, row.Built e := by
    intro row hrow
    obtain ⟨e, -, he⟩ := mem_pageRows hrow
    exact ⟨e, he⟩
  have hprinted := Cli.printRows_rows
    (roundtrip_getData hwidth ambient hclient) hbuilt
  rcases roundtrip_getHistory width ambient hclient page with ⟨-, hreply⟩ | ⟨hnot, -⟩
  · rw [Cli.printEntry, hreply, Cli.printedPage]
    simp only [Message.atClient, Message.toJson, historyJson, List.length_map, hprinted,
      List.length_eq_zero_iff, if_true]
    split
    · rename_i hempty
      have hlast : (0 : ℤ) ≠ page.2 := by omega
      rw [hempty]
      cases json <;> cases first <;> simpa [terminate] using hlast
    · cases json <;> rfl
  · exact absurd hpage hnot

theorem printEntry_fails (hclient : s.findClient fd = some client)
    (hpage : ¬ s.PageArrives width ambient page) (json printEmpty : Bool) :
    (Cli.printEntry (s.roundtrip width ambient fd) text page.1 page.2 json printEmpty).2 =
      none := by
  rcases roundtrip_getHistory width ambient hclient page with ⟨h, -⟩ | ⟨-, hreply⟩
  · exact absurd h hpage
  · unfold Cli.printEntry
    split
    · rfl
    · rename_i resp hresp
      split
      · rename_i entries hentries
        exact absurd hentries (hreply resp hresp entries)
      · rfl

/-- Every page that arrives is printed; the others end the command. -/
theorem listPages_eq (hwidth : ∀ b, width b ≤ 6) (ambient : Request → Ambient)
    (hclient : s.findClient fd = some client) (json : Bool) (off remain : ℤ) (first : Bool) :
    ((∀ page ∈ s.pages ambient off remain, s.PageArrives width ambient page) →
      Cli.listPages (s.roundtrip width ambient fd) text json first off remain =
        (Cli.printedPages (s.roundtrip width ambient fd) text json first
          ((s.pages ambient off remain).map (s.pageRows ambient)), true)) ∧
    ((Cli.listPages (s.roundtrip width ambient fd) text json first off remain).2 = true →
      ∀ page ∈ s.pages ambient off remain, s.PageArrives width ambient page) := by
  induction off, remain using State.pages.induct ambient s generalizing first with
  | case1 off remain hremain ih =>
    have hpos : 0 < min 100 remain := lt_min (by decide) hremain
    rw [pages_of_pos ambient s off hremain, List.forall_mem_cons, List.map_cons, Cli.printedPages]
    by_cases harrives : s.PageArrives width ambient (off, min 100 remain)
    · rw [and_iff_right harrives]
      have hprinted := printEntry_arrives text hwidth hclient harrives hpos json first
      by_cases hfull : (s.pageRows ambient (off, min 100 remain)).length = min 100 remain
      · have hmore : ((s.pageRows ambient (off, min 100 remain)).length ≠ min 100 remain : Bool) =
            false := decide_eq_false (not_not.mpr hfull)
        rw [hmore] at hprinted
        obtain ⟨hprints, hsucceeds⟩ := ih true
        rw [if_pos hfull, Cli.listPages_next hremain hprinted]
        refine ⟨fun h => ?_, hsucceeds⟩
        rw [hprints h]
      · have hlast : ((s.pageRows ambient (off, min 100 remain)).length ≠ min 100 remain : Bool) =
            true := decide_eq_true hfull
        rw [hlast] at hprinted
        rw [if_neg hfull, Cli.listPages_last hremain hprinted, List.map_nil, Cli.printedPages,
          List.append_nil]
        exact ⟨fun _ => rfl, fun _ page hpage => by cases hpage⟩
    · have hfails :=
        Cli.listPages_failed hremain (printEntry_fails text hclient harrives json (!first))
      refine ⟨fun h => absurd h.1 harrives, fun hok => ?_⟩
      rw [hfails] at hok
      cases hok
  | case2 off remain hdone =>
    rw [pages_done ambient s off hdone, Cli.listPages_done hdone]
    exact ⟨fun _ => rfl, fun _ page hpage => by cases hpage⟩

end Pages

/-! ## The entries of the history -/

theorem map_filterMap_mapIdx {α β γ : Type*} {f : ℕ → α → Option β} {g : β → γ} {h : α → γ}
    {l : List α} (hf : ∀ i, ∀ x ∈ l, ∃ y, f i x = some y ∧ g y = h x) :
    ((l.mapIdx f).filterMap fun y => y).map g = l.map h := by
  induction l generalizing f with
  | nil => rfl
  | cons x l ih =>
    obtain ⟨y, hy, hg⟩ := hf 0 x List.mem_cons_self
    rw [List.mapIdx_cons, List.filterMap_cons, hy, List.map_cons, List.map_cons, hg,
      ih fun i z hz => hf (i + 1) z (List.mem_cons_of_mem _ hz)]

theorem pageRows_ids {ambient : Request → Ambient} {page : ℤ × ℤ}
    (hsql : (ambient (.getHistory (some page.1) (some page.2))).sql = allOk) (s : State) :
    (s.pageRows ambient page).map HistoryRow.id =
      (s.db.tables.getEntries page.1 page.2).map Entry.id := by
  apply map_filterMap_mapIdx
  intro i e he
  obtain ⟨row, hrow, hid, -⟩ := getEntryCallback_some hsql (mem_getEntries he) i
  exact ⟨row, hrow, hid⟩

theorem getEntries_ids (t : Tables) (off : ℤ) {n : ℤ} (hn : 0 ≤ n) :
    (t.getEntries off n).map Entry.id = Paging.window (t.history.map Entry.id) off n := by
  rw [getEntries, if_neg (not_lt.mpr hn), ← Paging.window_map, Paging.window]

/-- When no call for a page fails, the entries are read in pages. -/
theorem listed_paged {ambient : Request → Ambient}
    (hsql : ∀ start n, (ambient (.getHistory start n)).sql = allOk) (s : State) (off remain : ℤ) :
    (s.listed ambient off remain).map HistoryRow.id =
      Paging.paged 100 (s.db.tables.history.map Entry.id) off remain := by
  induction off, remain using State.pages.induct ambient s with
  | case1 off remain hremain ih =>
    have hids : (s.pageRows ambient (off, min 100 remain)).map HistoryRow.id =
        Paging.window (s.db.tables.history.map Entry.id) off (min 100 remain) := by
      rw [pageRows_ids (hsql _ _), getEntries_ids _ _ (le_min (by decide) hremain.le)]
    have hlength := congrArg List.length hids
    rw [List.length_map] at hlength
    rw [listed_of_pos ambient s off hremain, Paging.paged_of_pos (by decide) hremain,
      List.map_append, hids, hlength]
    split
    · rw [ih]
    · rfl
  | case2 off remain hdone =>
    rw [listed, pages_done ambient s off hdone, Paging.paged_done hdone]
    rfl

/-- When no call fails, the pages make up the part of the history that was asked for. -/
theorem listed_ids {ambient : Request → Ambient} (hsql : ∀ req, (ambient req).sql = allOk)
    (s : State) {off : ℤ} (hoff : 0 ≤ off) (remain : ℤ) :
    (s.listed ambient off remain).map HistoryRow.id =
      ((s.db.tables.history.drop off.toNat).take remain.toNat).map Entry.id := by
  rw [listed_paged (fun _ _ => hsql _), Paging.paged_eq_window (by decide) hoff,
    ← Paging.window_map, Paging.window]

end State

/-- The command succeeds, and prints one line for each of the entries. -/
def Cli.PrintsLines (result : Bytes × Bool) (rows : List HistoryRow) : Prop :=
  result.2 = true ∧ Lists Cli.newline Cli.StandsFor result.1 rows

section List
variable {width : UInt8 → ℕ} {ambient : Request → Ambient} {s : State} {fd : ℕ} {client : Client}

/-- Pages that arrive are printed line by line, but for the types that break a line. -/
theorem printsLines_of_arrives (hwidth : ∀ b, width b ≤ 6) (hclient : s.findClient fd = some client)
    (hids : ∀ e ∈ s.db.tables.entries, Cli.longMin ≤ e.id ∧ e.id ≤ Cli.longMax)
    (text : Json → Bytes) {start number : ℤ}
    (harrive : ∀ page ∈ s.pages ambient start number, s.PageArrives width ambient page) :
    Cli.PrintsLines (Cli.commandList (s.roundtrip width ambient fd) text false start number)
        (s.listed ambient start number) ↔
      ∀ row ∈ s.listed ambient start number, ¬ row.Breaks := by
  have hprints :=
    (State.listPages_eq text hwidth ambient hclient false start number false).1 harrive
  have hdata := State.roundtrip_getData hwidth ambient hclient
  have hstands : ∀ row ∈ s.listed ambient start number,
      Cli.StandsFor (Cli.rowLine (s.roundtrip width ambient fd) row) row := by
    intro row hrow
    obtain ⟨page, -, hpage⟩ := List.mem_flatMap.mp hrow
    obtain ⟨e, he, hbuilt⟩ := State.mem_pageRows hpage
    obtain ⟨preview, hline⟩ := Cli.rowLine_numbered hdata row
    obtain ⟨hmin, hmax⟩ := hids e he
    rw [hline]
    exact Cli.numbered_standsFor (by rwa [hbuilt.id]) (by rwa [hbuilt.id]) preview
  rw [Cli.PrintsLines, Cli.commandList, hprints, Cli.printedPages_lines, ← List.flatMap,
    ← State.listed, and_iff_right rfl, lists_terminate_iff Cli.newline hstands]
  refine forall₂_congr fun row _ => ?_
  rw [Cli.newline_mem_rowLine_iff hdata row]

end List

/-- The list has its lines exactly if all of its pages arrive and no type breaks a line. -/
theorem list_lines_iff {width : UInt8 → ℕ} (hwidth : ∀ b, width b ≤ 6) {s : State} {fd : ℕ}
    {client : Client} (hclient : s.findClient fd = some client)
    (hids : ∀ e ∈ s.db.tables.entries, Cli.longMin ≤ e.id ∧ e.id ≤ Cli.longMax)
    (ambient : Request → Ambient) (text : Json → Bytes) (start number : ℤ) :
    (0 ≤ start → (∀ req, (ambient req).sql = allOk) →
      (s.listed ambient start number).map HistoryRow.id =
        ((s.db.tables.history.drop start.toNat).take number.toNat).map Entry.id) ∧
    (Cli.PrintsLines (Cli.commandList (s.roundtrip width ambient fd) text false start number)
        (s.listed ambient start number) ↔
      (∀ page ∈ s.pages ambient start number, s.PageArrives width ambient page) ∧
        ∀ row ∈ s.listed ambient start number, ¬ row.Breaks) := by
  refine ⟨fun hstart hsql => State.listed_ids hsql s hstart number, ?_⟩
  constructor
  · intro hprints
    have harrive := (State.listPages_eq text hwidth ambient hclient false start number
      false).2 hprints.1
    exact ⟨harrive, (printsLines_of_arrives hwidth hclient hids text harrive).mp hprints⟩
  · rintro ⟨harrive, hwhole⟩
    exact (printsLines_of_arrives hwidth hclient hids text harrive).mpr hwhole

def copiedAs (mimeType : CString) : State :=
  run step (firstSession configInit)
    (copy (0, .regular) [(mimeType, [65])] ++ [.quiet (.connect 0)])

/-- What the plain text of a value takes for a byte. -/
def plainWidth (b : UInt8) : ℕ := (Json.escape b).length

theorem plainWidth_le (b : UInt8) : plainWidth b ≤ 6 := (Json.escape_length b).2

theorem onePage {s : State} {rows : List HistoryRow}
    (hrows : s.pageRows (fun _ => .quiet 0) (0, 100) = rows) (hpart : (rows.length : ℤ) ≠ 100)
    (hfits : (historyJson rows).size plainWidth ≤ maxPayload) :
    (∀ page ∈ s.pages (fun _ => .quiet 0) 0 Cli.longMax,
        s.PageArrives plainWidth (fun _ => .quiet 0) page) ∧
      s.listed (fun _ => .quiet 0) 0 Cli.longMax = rows := by
  have hmin : min 100 Cli.longMax = 100 := by decide
  have hpages : s.pages (fun _ => .quiet 0) 0 Cli.longMax = [(0, 100)] := by
    rw [State.pages_of_pos _ s 0 (by decide), hmin, hrows, if_neg hpart]
  rw [State.listed, hpages, List.flatMap_singleton, hrows]
  refine ⟨fun page hpage => ?_, rfl⟩
  rw [List.mem_singleton.mp hpage]
  exact ⟨rfl, by rwa [hrows]⟩

/-- A text is listed on its line. -/
theorem copiedText_lists :
    Cli.PrintsLines (Cli.commandList
      ((copiedAs textPlain).roundtrip plainWidth (fun _ => .quiet 0) 0) Json.plainText false 0
        Cli.longMax) ((copiedAs textPlain).listed (fun _ => .quiet 0) 0 Cli.longMax) := by
  obtain ⟨client, hclient⟩ : ∃ client, (copiedAs textPlain).findClient 0 = some client :=
    Option.isSome_iff_exists.mp (by decide +kernel)
  have hrows : (copiedAs textPlain).pageRows (fun _ => .quiet 0) (0, 100) =
      [⟨1, 0, 0, false, true, [textPlain], some (ascii "text".toList), some textPlain.bytes⟩] := by
    decide +kernel
  obtain ⟨harrive, hlisted⟩ := onePage hrows (by decide) (by decide +kernel)
  refine (list_lines_iff plainWidth_le hclient (by decide +kernel) (fun _ => .quiet 0)
    Json.plainText 0 Cli.longMax).2.mpr ⟨harrive, ?_⟩
  rw [hlisted]
  intro row hrow
  rw [List.mem_singleton.mp hrow]
  rintro ⟨hprints | hprints, -⟩ <;> exact absurd hprints (by decide +kernel)

/-- An image whose type looks like the beginning of another line. -/
def twoLineImage : CString := ⟨ascii "image/\n7\t".toList, by decide⟩

/-- The only entry is listed on two lines, from the second of which entry 7 would be chosen. -/
theorem twoLineImage_not_listed : Reachable (copiedAs twoLineImage) ∧
    ¬ Cli.PrintsLines (Cli.commandList
      ((copiedAs twoLineImage).roundtrip plainWidth (fun _ => .quiet 0) 0) Json.plainText false 0
        Cli.longMax) ((copiedAs twoLineImage).listed (fun _ => .quiet 0) 0 Cli.longMax) := by
  obtain ⟨client, hclient⟩ : ∃ client, (copiedAs twoLineImage).findClient 0 = some client :=
    Option.isSome_iff_exists.mp (by decide +kernel)
  have hrows : (copiedAs twoLineImage).pageRows (fun _ => .quiet 0) (0, 100) =
      [⟨1, 0, 0, false, true, [twoLineImage], some (ascii "image".toList),
        some twoLineImage.bytes⟩] := by
    decide +kernel
  obtain ⟨harrive, hlisted⟩ := onePage hrows (by decide) (by decide +kernel)
  refine ⟨(firstSession_reachable configInit).run _, fun hprints => ?_⟩
  rw [printsLines_of_arrives plainWidth_le hclient (by decide +kernel) Json.plainText harrive,
    hlisted] at hprints
  exact hprints _ (List.mem_singleton_self _) ⟨Or.inr (by decide +kernel), by decide +kernel⟩

end Swayclip
