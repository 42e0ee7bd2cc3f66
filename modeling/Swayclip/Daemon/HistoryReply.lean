import Swayclip.Daemon.Exchange
import Swayclip.Daemon.NullTimer
import Swayclip.Daemon.Transitions
import Swayclip.Ipc.Limits
import Swayclip.Ipc.Payload

/-! # Replies with a page of the history

The size of the reply grows with the types of the entries, which clients choose, and the daemon
does not look at it. The client's end gives up the connection if it is more than 1 MiB.
-/

namespace Swayclip
open Library Library.Runs Tables

namespace State

/-- The rows for a page of the history, less those for which a call fails. -/
def historyPage (a : Ambient) (start n : ℤ) (s : State) : List HistoryRow :=
  ((s.db.tables.getEntries start n).mapIdx
    (fun i e => s.getEntryCallback a.sql i e)).filterMap (fun row => row)

def PageFits (width : UInt8 → ℕ) (a : Ambient) (start n : Option ℤ) (s : State) : Prop :=
  ∀ start' ∈ start, ∀ n' ∈ n, a.sql .getEntries 0 = true →
    (historyJson (s.historyPage a start' n')).size width ≤ maxPayload

/-- What the client is sent: the page if the request is granted, or one of two errors. -/
theorem getHistory_message {a : Ambient} {fd : ℕ} {start n : Option ℤ} {s : State}
    {client client' : Client} (hclient : s.findClient fd = some client)
    (hafter : (s.requestCallback a fd (.getHistory start n)).findClient fd = some client')
    {msg : Message} (hmsg : client'.writeQueue = client.writeQueue ++ [msg]) :
    (∃ start' n', start = some start' ∧ n = some n' ∧ a.sql .getEntries 0 = true ∧
        msg = .history (s.historyPage a start' n')) ∨
      (start = none ∨ n = none ∨ a.sql .getEntries 0 = false) ∧
        ∃ desc, msg = .error desc ∧ desc.length ≤ 255 := by
  have hmessage : ∀ reply, s.requestCallback a fd (.getHistory start n) =
      s.onClient fd (Client.ipcCtWriteMsg reply) → msg = reply := by
    intro reply hreply
    rw [hreply, findClient_onClient_self (f := Client.ipcCtWriteMsg reply) (fun _ => rfl) hclient]
      at hafter
    obtain rfl := Option.some.inj hafter
    exact List.singleton_inj.mp (List.append_cancel_left hmsg).symm
  have herror : ∀ desc, s.requestCallback a fd (.getHistory start n) = s.sendError fd desc →
      ∃ desc, msg = .error desc ∧ desc.length ≤ 255 := fun desc hdesc =>
    ⟨desc.take 255, hmessage _ hdesc, List.length_take_le ..⟩
  cases start with
  | none => exact Or.inr ⟨Or.inl rfl, herror ipcInvalidArgs rfl⟩
  | some start =>
    cases n with
    | none => exact Or.inr ⟨Or.inr (Or.inl rfl), herror ipcInvalidArgs rfl⟩
    | some n =>
      cases hsql : a.sql .getEntries 0 with
      | false =>
        refine Or.inr ⟨Or.inr (Or.inr rfl), herror ipcDbError ?_⟩
        simp only [requestCallback, serveGetHistory, databaseGetEntries, hsql]
        rfl
      | true =>
        refine Or.inl ⟨start, n, rfl, rfl, rfl, hmessage _ ?_⟩
        simp only [requestCallback, serveGetHistory, databaseGetEntries, hsql, if_true]
        rfl

end State

/-! ## Sizes -/

theorem error_size {width : UInt8 → ℕ} (hwidth : ∀ b, width b ≤ 6) {desc : Bytes}
    (h : desc.length ≤ 255) : (Message.error desc).toJson.size width ≤ maxPayload := by
  have hkey := Json.stringSize_le hwidth (jsonKey "desc")
  have hdesc := Json.stringSize_le hwidth desc
  have hlength : (jsonKey "desc").length = 4 := rfl
  simp only [Message.toJson, jsonFieldStr, Json.size, Json.fieldsSize, List.length_cons,
    List.length_nil, maxPayload]
  omega

theorem pos_size_toJson (width : UInt8 → ℕ) {msg : Message}
    (h : (∃ rows, msg = .history rows) ∨ ∃ desc, msg = .error desc) :
    1 ≤ msg.toJson.size width := by
  rcases h with ⟨rows, rfl⟩ | ⟨desc, rfl⟩
  · rw [Message.toJson, historyJson, Json.size]
    omega
  · rw [Message.toJson, Json.size]
    omega

/-- Whatever is replied to `get_history` is accepted by the client's end exactly if the page that
is asked for fits. -/
theorem history_reply_accepted_iff {T : JsonTokener Json} {text : Json → Bytes} {width : UInt8 → ℕ}
    (hplain : Json.Plain width text) (hwidth : ∀ b, width b ≤ 6) {s : State} {a : Ambient} {fd : ℕ}
    {start n : Option ℤ} {client client' : Client} (hclient : s.findClient fd = some client)
    (hafter : (s.requestCallback a fd (.getHistory start n)).findClient fd = some client')
    {msg : Message} (hmsg : client'.writeQueue = client.writeQueue ++ [msg])
    (hdoc : T.Document (text msg.toJson) msg.toJson) (memfd : Bytes → ℕ) (wantFd : Bool) :
    Link.Accepts T text wantFd (msg.outgoing memfd) ↔ s.PageFits width a start n := by
  have hmessage := State.getHistory_message hclient hafter hmsg
  have hsize : (text (msg.outgoing memfd).payload).length = msg.toJson.size width := hplain _
  rw [Link.accepts_iff (by
    rw [hsize]
    exact pos_size_toJson width (hmessage.imp (fun ⟨_, _, _, _, _, h⟩ => ⟨_, h⟩)
      fun ⟨_, desc, h, _⟩ => ⟨desc, h⟩)) hdoc, hsize]
  rcases hmessage with ⟨start, n, rfl, rfl, hsql, rfl⟩ | ⟨hrefused, desc, rfl, hdesc⟩
  · exact ⟨fun h start' hstart n' hn _ => by
      obtain rfl := Option.some.inj hstart
      obtain rfl := Option.some.inj hn
      exact h, fun h => h start rfl n rfl hsql⟩
  · refine iff_of_true (error_size hwidth hdesc) fun start' hstart n' hn hsql => ?_
    rcases hrefused with rfl | rfl | hfails
    · cases hstart
    · cases hn
    · rw [hfails] at hsql
      cases hsql

theorem step_connect_db (s : State) (fd : ℕ) : (step s (.quiet (.connect fd))).db = s.db := by
  simp only [step, State.handle, Input.quiet, State.connect]
  split <;> rfl

theorem step_connect_found (s : State) (fd : ℕ) :
    ∃ client, (step s (.quiet (.connect fd))).findClient fd = some client := by
  simp only [step, State.handle, Input.quiet, State.connect]
  split
  · rename_i client hfound
    exact ⟨client, hfound⟩
  · exact ⟨ipcAddClient fd, by simp [State.findClient, ipcAddClient]⟩

/-! ## A page that is accepted -/

/-- Two texts are copied, the second with two types. Then a client connects. -/
def copiedTexts : State :=
  run step (firstSession configInit) (copy (0, .regular) [(textPlain, [65])] ++
    copy (0, .regular) [(textPlain, [66]), (textPlainUtf8, [66])] ++ [.quiet (.connect 0)])

def twoRows : List HistoryRow :=
  [⟨2, 0, 0, false, true, [textPlain, textPlainUtf8], some (ascii ['t', 'e', 'x', 't']),
      some textPlainUtf8.bytes⟩,
    ⟨1, 0, 0, false, false, [textPlain], some (ascii ['t', 'e', 'x', 't']), some textPlain.bytes⟩]

theorem copiedTexts_page : copiedTexts.historyPage (.quiet 0) 0 100 = twoRows := by
  decide +kernel

def twoRowsTokener : JsonTokener Json :=
  Incremental.Parser.collect
    (fun text => if text = Json.plainText (historyJson twoRows) then some (historyJson twoRows)
      else none) 0 (if_neg (by decide +kernel))

theorem twoRows_document :
    twoRowsTokener.Document (Json.plainText (historyJson twoRows)) (historyJson twoRows) :=
  Incremental.Parser.collect_document _ (by decide +kernel) (if_pos rfl)

/-- The client asks for the first page. -/
theorem twoRows_accepted :
    Link.Accepts twoRowsTokener Json.plainText true
      ((Message.history twoRows).outgoing fun _ => 0) := by
  obtain ⟨client, hclient⟩ : ∃ client, copiedTexts.findClient 0 = some client := by
    rw [copiedTexts, run_append, run_cons, run_nil]
    exact step_connect_found _ 0
  have hserve : copiedTexts.requestCallback (.quiet 0) 0 (.getHistory (some 0) (some 100)) =
      copiedTexts.onClient 0 (Client.ipcCtWriteMsg (.history twoRows)) := by
    rw [← copiedTexts_page]
    rfl
  have hafter : (copiedTexts.requestCallback (.quiet 0) 0
      (.getHistory (some 0) (some 100))).findClient 0 =
        some (client.ipcCtWriteMsg (.history twoRows)) := by
    rw [hserve]
    exact State.findClient_onClient_self (f := Client.ipcCtWriteMsg (.history twoRows))
      (fun _ => rfl) hclient
  have hfits : copiedTexts.PageFits (fun b => (Json.escape b).length) (.quiet 0) (some 0)
      (some 100) := by
    rintro start ⟨⟩ n ⟨⟩ -
    rw [copiedTexts_page]
    decide +kernel
  exact (history_reply_accepted_iff Json.plainText_plain (fun b => (Json.escape_length b).2) hclient
    hafter rfl twoRows_document (fun _ => 0) true).mpr hfits

/-! ## A page that is not -/

namespace State

theorem offerEvents_core (n : ℕ) (offered : List CString) (s : State) :
    (run step s (offerEvents n offered)).SameCore s := by
  have honSeat : ∀ (f : Seat → State → State) (s : State),
      (∀ seat s, ∃ seat', f seat s = s.putSeat seat') → (s.onSeat n f).SameCore s := by
    intro f s hf
    rcases onSeat_cases n f s with he | ⟨seat, -, -, he⟩
    · rw [he]
      exact .refl s
    · obtain ⟨seat', hput⟩ := hf seat s
      rw [he, hput]
      exact ⟨rfl, rfl, rfl, rfl, rfl, rfl⟩
  have hoffers : ∀ s : State,
      (run step s (offered.map fun m => .quiet (.offer n m))).SameCore s := by
    induction offered with
    | nil => exact .refl
    | cons m offered ih =>
      intro s
      rw [List.map_cons, run_cons]
      exact (ih _).trans (honSeat (offer m) s fun _ _ => ⟨_, rfl⟩)
  rw [offerEvents, run_cons]
  exact (hoffers _).trans (honSeat dataOffer s fun _ _ => ⟨_, rfl⟩)

theorem getEntryCallback_some {a : Ambient} (hsql : a.sql = allOk) {s : State} {e : Entry}
    (he : e ∈ s.db.tables.entries) (i : ℕ) :
    ∃ row, s.getEntryCallback a.sql i e = some row ∧ row.id = e.id ∧
      row.mimeTypes = s.db.tables.getMimeTypes e.id := by
  have hattribute : ∀ key, (databaseGetAttribute true e.id key s.db).isSome = true := by
    intro key
    rw [databaseGetAttribute, if_pos rfl, Option.isSome_map, List.find?_isSome]
    exact ⟨_, he, decide_eq_true rfl⟩
  obtain ⟨contentType, htype⟩ := Option.isSome_iff_exists.mp (hattribute .contentType)
  obtain ⟨contentMime, hmime⟩ := Option.isSome_iff_exists.mp (hattribute .contentMime)
  simp only [getEntryCallback, hsql, allOk_apply, databaseGetMimeTypes, if_true, htype, hmime]
  exact ⟨_, rfl, rfl, rfl⟩

theorem mem_historyPage {a : Ambient} (hsql : a.sql = allOk) {start n : ℤ} {s : State} {e : Entry}
    (he : e ∈ s.db.tables.getEntries start n) :
    ∃ row ∈ s.historyPage a start n, row.mimeTypes = s.db.tables.getMimeTypes e.id := by
  obtain ⟨i, hi, rfl⟩ := List.getElem_of_mem he
  obtain ⟨row, hrow, -, htypes⟩ := getEntryCallback_some hsql (mem_getEntries he) i
  exact ⟨row, List.mem_filterMap.mpr ⟨some row, List.mem_mapIdx.mpr ⟨i, hi, hrow⟩, rfl⟩, htypes⟩

end State

theorem types_le_page {width : UInt8 → ℕ} (hwidth : ∀ b, 1 ≤ width b) {types : List CString}
    (hnodup : types.Nodup) {rows : List HistoryRow} {row : HistoryRow} (hrow : row ∈ rows)
    (hsub : types ⊆ row.mimeTypes) :
    (types.map fun m => m.bytes.length).sum ≤ (historyJson rows).size width := by
  obtain ⟨types', hperm, hsublist⟩ := List.subperm_of_subset hnodup hsub
  have hmime : (row.mimeTypes.map fun m => m.bytes.length).sum ≤
      (Json.array (row.mimeTypes.map fun m => .string m.bytes)).size width := by
    rw [Json.size, Json.elemsSize_eq, List.map_map]
    have hsum := List.sum_le_sum (l := row.mimeTypes) (f := fun m => m.bytes.length)
      (g := Json.size width ∘ fun m => .string m.bytes)
      fun m _ => Json.length_le_stringSize hwidth m.bytes
    omega
  calc (types.map fun m => m.bytes.length).sum
      = (types'.map fun m => m.bytes.length).sum := (hperm.map _).sum_eq.symm
    _ ≤ (row.mimeTypes.map fun m => m.bytes.length).sum :=
        (hsublist.map _).sum_le_sum fun _ _ => Nat.zero_le _
    _ ≤ _ := hmime
    _ ≤ row.toJson.size width := by
        have hfield :
            jsonFieldObj "mime_types" (.array (row.mimeTypes.map fun m => .string m.bytes)) ∈
            [jsonFieldInt "id" row.id, jsonFieldInt "creation_time" row.creationTime,
              jsonFieldInt "update_time" row.updateTime, jsonFieldBool "pinned" row.pinned,
              jsonFieldBool "current" row.current,
              jsonFieldObj "mime_types" (.array (row.mimeTypes.map fun m => .string m.bytes))] ++
            (row.contentType.map (jsonFieldStr "content_type")).toList ++
            (row.contentMimeType.map (jsonFieldStr "content_mime_type")).toList := by
          simp
        exact Json.size_le_object hfield
    _ ≤ _ := Json.size_le_array (List.mem_map_of_mem hrow)

/-- What the source client writes for the types of a copy is received as it is. -/
theorem receiveAll_copied {config : Config} {content : Content}
    (hdata : ∀ e ∈ content, receiveData config (some e.2) = some e.2) :
    receiveAll config (fun i => content[i]?.map Prod.snd) 0 (content.map Prod.fst) =
      some content := by
  suffices hrest : ∀ (done content : Content),
      (∀ e ∈ content, receiveData config (some e.2) = some e.2) →
      receiveAll config (fun i => (done ++ content)[i]?.map Prod.snd) done.length
        (content.map Prod.fst) = some content from hrest [] content hdata
  intro done content hdata
  induction content generalizing done with
  | nil => rfl
  | cons e content ih =>
    have hwritten : (done ++ e :: content)[done.length]?.map Prod.snd = some e.2 := by simp
    have hnext := ih (done ++ [e]) fun x hx => hdata x (List.mem_cons_of_mem _ hx)
    rw [List.append_assoc, List.length_append] at hnext
    rw [List.map_cons, receiveAll, hwritten, hdata e List.mem_cons_self]
    exact congrArg (Option.map _) hnext

theorem announce_unfiltered (offered : List CString) :
    announce configInit.toMimeFilter none offered = ⟨offered, false, false⟩ := by
  have hblock : offered.any (blockSeen configInit.toMimeFilter none) = false :=
    List.any_eq_false.mpr fun m _ => (Bool.not_eq_true _).mpr rfl
  rw [announce, foldl_offer_eq configInit.toMimeFilter none rfl hblock]
  have hadmitted : offered.filter (admitted configInit.toMimeFilter none) = offered :=
    List.filter_eq_self.mpr fun m _ => rfl
  have hmark : offered.any (markSeen configInit.toMimeFilter none) = false :=
    List.any_eq_false.mpr fun m _ => (Bool.not_eq_true _).mpr rfl
  rw [hadmitted, hmark]
  rfl

/-- An entry that is added to an empty history is the only one, and has all of its types. -/
theorem first_added {t t' : Tables} (hwf : t.WF) (hempty : t.entries = []) {now : ℤ}
    {content : Content} (hadd : t.addEntry now content = some t') (f : Attributes → Attributes) :
    ∃ e, (mapAttributes t.nextId f t').entries = [e] ∧
      ∀ m ∈ content.map Prod.fst, m ∈ (mapAttributes t.nextId f t').getMimeTypes e.id := by
  have hentries : (mapAttributes t.nextId f t').entries.length = 1 := by
    rw [mapAttributes, List.length_map, entries_addEntry hadd, hempty]
    rfl
  obtain ⟨e, he⟩ := List.length_eq_one_iff.mp hentries
  have hid : e.id = t.nextId := by
    have hids := congrArg (List.map Entry.id) he
    rw [mapAttributes, List.map_map, entries_addEntry hadd, hempty] at hids
    simp only [List.map_nil, List.nil_append, List.map_cons, Function.comp_apply, if_true] at hids
    exact (List.singleton_inj.mp hids).symm
  refine ⟨e, he, fun m hm => ?_⟩
  rw [hid]
  change m ∈ t'.getMimeTypes t.nextId
  rw [← mimeRow_isSome, mimeRow_addEntry hwf hadd, Option.isSome_map]
  exact Content.first_isSome.mpr hm

/-- What is not found in a history that is not full becomes an entry, and no other one goes. -/
theorem step_adds {s : State} (hwf : s.db.tables.WF) (hsaved : s.db.saved = none)
    {name : SelectionName} {seat : Seat} (hdelivers : State.Delivers s name seat)
    (hmime : seat.mimeTypes ≠ []) (htransient : seat.transient = false) (ambient : ℕ → Ambient)
    (hsql : (ambient 0).sql = allOk) {written : ℕ → Option Bytes} (timerOk : Bool)
    {content : Content} (hreceived : receiveAll s.config written 0 seat.mimeTypes = some content)
    (hverdict : verdict s.config.dedup content.hash s.db.tables = .add)
    (hshort : s.db.tables.entries.length < s.config.maxEntries) :
    ∃ t f, s.db.tables.addEntry (ambient 0).now content = some t ∧
      (step s ⟨.selection name (some written) timerOk, ambient⟩).db.tables.SameRows
        (mapAttributes s.db.tables.nextId f t) ∧
      (step s ⟨.selection name (some written) timerOk, ambient⟩).config = s.config := by
  obtain ⟨hstep, hcopied⟩ :=
    step_stores hwf hsaved hdelivers hmime htransient hsql timerOk hreceived
  rw [hstep]
  generalize (s.withOffer name seat).beforeTrim (ambient 0) name written seat.mimeTypes = before
    at hcopied ⊢
  cases hcopied with
  | failed h => cases h
  | ignored h hignore =>
    obtain rfl := Option.some.inj h
    cases hignore.symm.trans hverdict
  | moved h hmove =>
    obtain rfl := Option.some.inj h
    cases hmove.symm.trans hverdict
  | @added content' t f h _ hadd =>
    obtain rfl := Option.some.inj h
    have hlength : (mapAttributes s.db.tables.nextId f t).entries.length ≤
        s.config.maxEntries := by
      rw [mapAttributes, List.length_map, entries_addEntry hadd, List.length_append,
        List.length_map]
      exact hshort
    have hkept : ∀ after : State, after.db.tables.SameRows (mapAttributes s.db.tables.nextId f t) →
        after.config = s.config → (after.trim (ambient 0)).db.tables.SameRows
          (mapAttributes s.db.tables.nextId f t) := by
      intro after hrows hconfig
      rwa [State.trim_tables_quiet hsql, trim_of_short (by rwa [hrows.entries, hconfig])]
    exact ⟨t, f, hadd, hkept _ (State.committed_sameRows ..) (State.set_config ..),
      State.set_config ..⟩

theorem first_stored {s : State} (hwf : s.db.tables.WF) (hsaved : s.db.saved = none)
    (hempty : s.db.tables.entries = []) (hmax : 0 < s.config.maxEntries) {name : SelectionName}
    {seat : Seat} (hdelivers : State.Delivers s name seat) (hmime : seat.mimeTypes ≠ [])
    (htransient : seat.transient = false) (ambient : ℕ → Ambient) (hsql : (ambient 0).sql = allOk)
    {written : ℕ → Option Bytes} (timerOk : Bool) {content : Content}
    (hreceived : receiveAll s.config written 0 seat.mimeTypes = some content) :
    ∃ e, (step s ⟨.selection name (some written) timerOk, ambient⟩).db.tables.entries = [e] ∧
      ∀ m ∈ content.map Prod.fst,
        m ∈ (step s ⟨.selection name (some written) timerOk, ambient⟩).db.tables.getMimeTypes
          e.id := by
  have hverdict : verdict s.config.dedup content.hash s.db.tables = .add := by
    have hpos : s.db.tables.entryHashPos content.hash = none :=
      entryHashPos_eq_none.mpr (by simp [hempty])
    cases s.config.dedup <;> simp [verdict, hpos]
  obtain ⟨t, f, hadd, hrows, -⟩ := step_adds hwf hsaved hdelivers hmime htransient ambient hsql
    timerOk hreceived hverdict (by rwa [hempty])
  obtain ⟨e, he, htypes⟩ := first_added hwf hempty hadd f
  refine ⟨e, hrows.entries.trans he, fun m hm => ?_⟩
  rw [getMimeTypes, hrows.mimeTypes]
  exact htypes m hm

/-- A selection with one byte of data for every type. -/
def lettered (types : List CString) : Content := types.map fun m => (m, [65])

def copiedLettered (types : List CString) : State :=
  run step (firstSession configInit) (copy (0, .regular) (lettered types) ++
    [.quiet (.connect 0)])

theorem map_fst_lettered (types : List CString) : (lettered types).map Prod.fst = types := by
  rw [lettered, List.map_map]
  exact List.map_id _

/-- On a seat that can receive, an offer that is neither blocked nor marked will be received. -/
theorem offerEvents_delivers {s : State} {n : ℕ} {type : SelectionType} {seat : Seat}
    {types : List CString} (hseat : s.findSeat n = some seat)
    (hannounce : announce s.config.toMimeFilter s.activeToplevel types = ⟨types, false, false⟩)
    (hreaches : State.reaches type { seat with toCollected := ⟨types, false, false⟩ } = true) :
    State.Delivers (run step s (offerEvents n types)) (n, type)
      { seat with toCollected := ⟨types, false, false⟩ } := by
  have henabled : seat.enabled = true := by
    rw [State.reaches] at hreaches
    simp only [Bool.and_eq_true] at hreaches
    exact hreaches.1.1.1
  have hoffered := findSeat_offerEvents hseat henabled types
  rw [hannounce] at hoffered
  exact State.delivers_iff.mpr ⟨hoffered, hreaches⟩

theorem offered_delivers (types : List CString) : ∃ seat, seat.mimeTypes = types ∧
    seat.transient = false ∧ State.Delivers
      (run step (firstSession configInit) (offerEvents 0 types)) (0, .regular) seat := by
  obtain ⟨seat, hseat, hreaches⟩ : ∃ seat, (firstSession configInit).findSeat 0 = some seat ∧
      State.reaches .regular { seat with toCollected := ⟨types, false, false⟩ } = true :=
    ⟨_, rfl, rfl⟩
  exact ⟨_, rfl, rfl, offerEvents_delivers hseat (announce_unfiltered types) hreaches⟩

/-- The entry with the types is on the first page. -/
theorem copiedLettered_page {types : List CString} (htypes : types ≠ []) :
    ∃ row ∈ (copiedLettered types).historyPage (.quiet 0) 0 100, types ⊆ row.mimeTypes := by
  obtain ⟨seat, hmime, htransient, hdelivers⟩ := offered_delivers types
  have hcore := State.offerEvents_core 0 types (firstSession configInit)
  have hwf := ((firstSession_reachable configInit).run (offerEvents 0 types)).wf.db.tables
  have hreceived : receiveAll (run step (firstSession configInit) (offerEvents 0 types)).config
      (fun i => (lettered types)[i]?.map Prod.snd) 0 seat.mimeTypes = some (lettered types) := by
    have heach : ∀ e ∈ lettered types, receiveData configInit (some e.2) = some e.2 := by
      intro e he
      obtain ⟨m, -, rfl⟩ := List.mem_map.mp he
      exact (by decide : receiveData configInit (some [65]) = some [65])
    have hall := receiveAll_copied heach
    rw [map_fst_lettered] at hall
    rw [hmime, hcore.config]
    exact hall
  obtain ⟨e, hentries, hrows⟩ := first_stored hwf (by rw [hcore.db]; rfl) (by rw [hcore.db]; rfl)
    (by rw [hcore.config]; decide) hdelivers (by rw [hmime]; exact htypes) htransient
    (fun _ => .quiet 0) rfl true hreceived
  have hdb : (copiedLettered types).db = (step (run step (firstSession configInit)
      (offerEvents 0 types)) ⟨.selection (0, .regular)
        (some fun i => (lettered types)[i]?.map Prod.snd) true, fun _ => .quiet 0⟩).db := by
    rw [copiedLettered, copy, map_fst_lettered, run_append, run_append, run_cons, run_cons, run_nil,
      run_nil]
    exact step_connect_db _ 0
  have hpage : e ∈ (copiedLettered types).db.tables.getEntries 0 100 := by
    rw [hdb, getEntries, history, hentries]
    exact List.mem_singleton.mpr rfl
  obtain ⟨row, hrow, hrowTypes⟩ := State.mem_historyPage (a := .quiet 0) rfl hpage
  refine ⟨row, hrow, fun m hm => ?_⟩
  rw [hrowTypes, hdb]
  refine hrows m ?_
  rwa [map_fst_lettered]

/-- The client cannot get the page if its types are too large. -/
theorem copiedLettered_refused {types : List CString} (hnodup : types.Nodup)
    (hlarge : maxPayload < (types.map fun m => m.bytes.length).sum) :
    ∃ client client' msg, (copiedLettered types).findClient 0 = some client ∧
      ((copiedLettered types).requestCallback (.quiet 0) 0
        (.getHistory (some 0) (some 100))).findClient 0 = some client' ∧
      client'.writeQueue = client.writeQueue ++ [msg] ∧
      ∀ T : JsonTokener Json, ¬ Link.Accepts T Json.plainText true (msg.outgoing fun _ => 0) := by
  have htypes : types ≠ [] := by
    rintro rfl
    exact absurd hlarge (Nat.not_lt_zero _)
  obtain ⟨row, hrow, hsub⟩ := copiedLettered_page htypes
  obtain ⟨client, hclient⟩ : ∃ client, (copiedLettered types).findClient 0 = some client := by
    rw [copiedLettered, run_append, run_cons, run_nil]
    exact step_connect_found _ 0
  refine ⟨client, _, .history ((copiedLettered types).historyPage (.quiet 0) 0 100), hclient,
    State.findClient_onClient_self (f := Client.ipcCtWriteMsg (.history
      ((copiedLettered types).historyPage (.quiet 0) 0 100))) (fun _ => rfl) hclient, rfl,
    fun T => Link.not_accepts_of_large ?_ true⟩
  refine hlarge.trans_le ((types_le_page (fun b => (Json.escape_length b).1) hnodup hrow
    hsub).trans_eq ?_)
  exact (Json.plainText_plain _).symm

def largeTypes : List CString :=
  (List.range 1500).map fun i => ⟨List.replicate (i + 1) 97, by simp [List.mem_replicate]⟩

theorem largeTypes_nodup : largeTypes.Nodup := by
  refine List.Nodup.map (fun i j hij => ?_) List.nodup_range
  have hlength := congrArg (fun m : CString => m.bytes.length) hij
  simpa using hlength

theorem largeTypes_size : maxPayload < (largeTypes.map fun m => m.bytes.length).sum := by
  have hlengths : (largeTypes.map fun m => m.bytes.length) = (List.range 1500).map (· + 1) := by
    rw [largeTypes, List.map_map]
    exact List.map_congr_left fun i _ => List.length_replicate ..
  rw [hlengths]
  decide +kernel

/-- The client asks for the first page, and gives up its connection over the reply. -/
theorem largeTypes_not_accepted : Reachable (copiedLettered largeTypes) ∧
    ∃ client client' msg, (copiedLettered largeTypes).findClient 0 = some client ∧
      ((copiedLettered largeTypes).requestCallback (.quiet 0) 0
        (.getHistory (some 0) (some 100))).findClient 0 = some client' ∧
      client'.writeQueue = client.writeQueue ++ [msg] ∧
      ∀ T : JsonTokener Json, ¬ Link.Accepts T Json.plainText true (msg.outgoing fun _ => 0) :=
  ⟨(firstSession_reachable configInit).run _,
    copiedLettered_refused largeTypes_nodup largeTypes_size⟩

end Swayclip
