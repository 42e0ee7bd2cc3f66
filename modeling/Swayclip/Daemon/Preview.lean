import Swayclip.Daemon.Atomicity
import Swayclip.Daemon.Committed
import Swayclip.Daemon.HistoryReply

/-! # The preview that is listed with an entry

Each entry carries the mime type that suits best for a preview. It goes through a buffer of fixed
size on its way into a reply, while the types themselves do not. A client that then asks for the
data gets a descriptor that is named after the type, and such a name has to be shorter still.
-/

namespace Swayclip
open Library.Runs Tables

/-! ## What the tables keep -/

namespace Tables

/-- The attributes of each entry name one of its types that has data, and the class of this type. -/
def Previewed (t : Tables) : Prop :=
  ∀ e ∈ t.entries, ∃ m d, t.mimeRow e.id m = some (some d) ∧
    e.attributes = ⟨some (getContentType m).name, some m⟩

/-- The entries that are left have the attributes and the types that they had. -/
def Retains (t t' : Tables) : Prop :=
  ∀ e' ∈ t'.entries, ∃ e ∈ t.entries, e.id = e'.id ∧ e.attributes = e'.attributes ∧
    ∀ m, t'.mimeRow e.id m = t.mimeRow e.id m

theorem Retains.refl (t : Tables) : Retains t t :=
  fun e he => ⟨e, he, rfl, rfl, fun _ => rfl⟩

theorem Retains.trans {t t' t'' : Tables} (h : Retains t t') (h' : Retains t' t'') :
    Retains t t'' := by
  intro e'' he''
  obtain ⟨e', he', hid', hattributes', htypes'⟩ := h' e'' he''
  obtain ⟨e, he, hid, hattributes, htypes⟩ := h e' he'
  refine ⟨e, he, hid.trans hid', hattributes.trans hattributes', fun m => ?_⟩
  rw [← htypes m, hid]
  exact htypes' m

theorem Previewed.retains {t t' : Tables} (h : t.Previewed) (hr : Retains t t') :
    t'.Previewed := by
  intro e' he'
  obtain ⟨e, he, hid, hattributes, htypes⟩ := hr e' he'
  obtain ⟨m, d, hm, hnamed⟩ := h e he
  exact ⟨m, d, hid ▸ (htypes m).trans hm, hattributes ▸ hnamed⟩

theorem previewed_empty : Previewed Tables.empty := nofun

theorem SameRows.retains {t t' : Tables} (h : t'.SameRows t) : Retains t t' := by
  intro e he
  rw [h.entries] at he
  exact ⟨e, he, rfl, rfl, fun m => by rw [mimeRow, h.mimeTypes, mimeRow]⟩

theorem retains_map {f : Entry → Entry} (hf : ∀ e, (f e).id = e.id ∧
    (f e).attributes = e.attributes) (t : Tables) :
    Retains t { t with entries := t.entries.map f } := by
  intro e' he'
  obtain ⟨e, he, rfl⟩ := List.mem_map.mp he'
  exact ⟨e, he, (hf e).1.symm, (hf e).2.symm, fun _ => rfl⟩

theorem retains_updateEntry (t : Tables) (now : ℤ) (pinned : Option Bool) (id : ℤ) :
    Retains t (t.updateEntry now pinned id) := by
  refine retains_map (fun e => ?_) t
  split <;> exact ⟨rfl, rfl⟩

theorem retains_updateSortIndex (t : Tables) (id : ℤ) : Retains t (t.updateSortIndex id) := by
  refine retains_map (fun e => ?_) t
  split <;> exact ⟨rfl, rfl⟩

theorem retains_moveEntry (t : Tables) (now id : ℤ) : Retains t (t.moveEntry now id) :=
  (retains_updateSortIndex t id).trans (retains_updateEntry _ now none id)

theorem retains_delEntries (t : Tables) (ids : List ℤ) : Retains t (t.delEntries ids) := by
  intro e he
  rw [delEntries_eq, List.mem_filter] at he
  have hid : e.id ∉ ids := by simpa using he.2
  exact ⟨e, he.1, rfl, rfl, fun m => mimeRow_delEntries hid m⟩

theorem retains_trim (t : Tables) (offset : ℕ) : Retains t (t.trim offset).2 := by
  rw [trim_tables]
  exact retains_delEntries t _

/-- A new entry with both of its attributes. -/
theorem Previewed.addEntry {t t' : Tables} (h : t.Previewed) (hwf : t.WF) {now : ℤ}
    {content : Content} (hadd : t.addEntry now content = some t')
    (hdata : ∀ e ∈ content, e.2 ≠ []) {m : CString} (hm : m ∈ content.map Prod.fst)
    {f : Attributes → Attributes}
    (hf : f ⟨none, none⟩ = ⟨some (getContentType m).name, some m⟩) :
    (mapAttributes t.nextId f t').Previewed := by
  intro e' he'
  obtain ⟨x, hx, rfl⟩ := List.mem_map.mp he'
  rw [entries_addEntry hadd, List.mem_append, List.mem_map, List.mem_singleton] at hx
  rcases hx with ⟨e, he, rfl⟩ | rfl
  · have hsame : ∀ y : Entry,
        y = (if e.hash = some content.hash then { e with hash := none } else e) →
        y.id = e.id ∧ y.attributes = e.attributes := by
      rintro y rfl
      split <;> exact ⟨rfl, rfl⟩
    generalize (if e.hash = some content.hash then { e with hash := none } else e) = y at hsame ⊢
    obtain ⟨hid, hattributes⟩ := hsame y rfl
    have hne : y.id ≠ t.nextId := by
      rw [hid]
      exact (id_lt_nextId he).ne
    obtain ⟨m', d, hm', hnamed⟩ := h e he
    rw [if_neg hne, hattributes]
    refine ⟨m', d, ?_, hnamed⟩
    change t'.mimeRow y.id m' = some (some d)
    rw [hid, mimeRow_addEntry_of_ne hadd (id_lt_nextId he).ne, hm']
  · obtain ⟨data, hfirst⟩ := Option.isSome_iff_exists.mp (Content.first_isSome.mpr hm)
    have hne : data ≠ [] := hdata (m, data) (Content.first_eq_some hfirst)
    refine ⟨m, sha256 data, ?_, ?_⟩
    · change t'.mimeRow _ m = _
      rw [if_pos rfl, mimeRow_addEntry hwf hadd, hfirst, Option.map_some, digestOf, if_neg hne]
    · rw [if_pos rfl]
      exact hf

end Tables

theorem receiveAll_types {config : Config} {written : ℕ → Option Bytes} {i : ℕ}
    {mimeTypes : List CString} {content : Content}
    (h : receiveAll config written i mimeTypes = some content) :
    content.map Prod.fst = mimeTypes := by
  induction mimeTypes generalizing i content with
  | nil =>
    obtain rfl := Option.some.inj h
    rfl
  | cons m mimeTypes ih =>
    rw [receiveAll] at h
    split at h
    · cases h
    · obtain ⟨rest, hrest, rfl⟩ := Option.map_eq_some_iff.mp h
      rw [List.map_cons, ih hrest]

/-- What is received is not empty. -/
theorem receiveAll_data {config : Config} {written : ℕ → Option Bytes} {i : ℕ}
    {mimeTypes : List CString} {content : Content}
    (h : receiveAll config written i mimeTypes = some content) : ∀ e ∈ content, e.2 ≠ [] := by
  induction mimeTypes generalizing i content with
  | nil =>
    obtain rfl := Option.some.inj h
    exact fun e he => absurd he List.not_mem_nil
  | cons m mimeTypes ih =>
    rw [receiveAll] at h
    split at h
    · cases h
    · rename_i data hdata
      obtain ⟨rest, hrest, rfl⟩ := Option.map_eq_some_iff.mp h
      intro e he
      rcases List.mem_cons.mp he with rfl | he
      · exact (of_decide_eq_true (Option.filter_eq_some_iff.mp hdata).2).1
      · exact ih hrest e he

namespace State

/-! ## What a step does to it -/

theorem effect_retains {a : Ambient} {x y : State} (h : Effect a x y) :
    Retains x.db.tables y.db.tables := by
  cases h with
  | client | emit | reset => exact .refl _
  | set ignore id => exact (set_sameRows ..).retains
  | update id pinned =>
    simp only [update, databaseUpdateEntry]
    cases a.sql .updateEntry 0 with
    | true => exact retains_updateEntry x.db.tables a.now pinned id
    | false => exact .refl _
  | delete id =>
    cases hok : a.sql .delEntry 0 with
    | true => exact retains_delEntries _ [id]
    | false => exact .refl _
  | clear =>
    cases hok : a.sql .clear 0 with
    | true => exact retains_delEntries _ _
    | false => exact .refl _

theorem messageCallback_retains (ambient : ℕ → Ambient) (client : Client) (msg : Option Request)
    (s : State) : Retains s.db.tables (s.messageCallback ambient client msg).db.tables :=
  messageCallback_preserve (P := fun x => Retains s.db.tables x.db.tables) ambient
    (fun _ _ _ he hx => hx.trans (effect_retains he)) client msg (.refl _)

theorem trim_retains (a : Ambient) (s : State) : Retains s.db.tables (s.trim a).db.tables := by
  simp only [trim, databaseTrim]
  cases a.sql .trim 0 with
  | true => exact retains_trim s.db.tables s.config.maxEntries
  | false => exact .refl _

theorem startup_retains (config : Config) (a : Ambient) (disk : Tables) :
    Retains (if config.persist then disk else Tables.empty)
      (startup config a disk).db.tables := by
  simp only [startup, databaseInit, databaseTrim]
  cases a.sql .trim 0 with
  | true => exact retains_trim _ config.maxEntries
  | false => exact .refl _

section Event
variable {a : Ambient} {name : SelectionName} {written : ℕ → Option Bytes}
  {mimeTypes : List CString} {s : State} {t : Tables}

/-- An event that gets stored leaves its attributes, too. -/
theorem storeSelection_previewed (hsql : a.sql = allOk) (hdb : s.db = ⟨t, some t⟩) (ht : t.WF)
    (hmime : mimeTypes ≠ []) (h : t.Previewed) :
    (s.storeSelection a name written mimeTypes).db.tables.Previewed := by
  cases he : selectionTransaction s.config a written mimeTypes s.db with
  | mk o db =>
    obtain ⟨hsaved, hend⟩ := selectionTransaction_begun ht hdb he
    cases hend with
    | added hreceived hadd hret hmoved hignore hid =>
      rw [storeSelection_commit name (by rw [hsql]; rfl) he hsaved hret hmoved, hid]
      obtain ⟨m, hm, hctype, hcontent⟩ := selectionTransaction_noted hmime he hret
      refine Previewed.retains (h.addEntry ht hadd (receiveAll_data hreceived) (m := m) ?_ ?_)
        (committed_sameRows ..).retains
      · rwa [receiveAll_types hreceived]
      · simp [savedAttributes, hsql, hctype, hcontent, Attributes.set]
    | moved hreceived hverdict hret hmoved hignore =>
      rw [storeSelection_move (by rw [hsql]; rfl) he hsaved hret hmoved, hsql, allOk_apply,
        allOk_apply, if_pos rfl, if_pos rfl]
      exact h.retains ((retains_moveEntry t a.now _).trans (movedFront_sameRows ..).retains)
    | ignored hreceived hverdict hret hmoved hignore =>
      rw [storeSelection_drop (by rw [hsql]; rfl) he hsaved hret hmoved, if_pos hignore]
      exact h
    | failed hret hmoved hignore =>
      rw [storeSelection_drop (by rw [hsql]; rfl) he hsaved hret hmoved, if_neg (by simp [hignore])]
      exact h

theorem wsignalSelection_previewed (hsql : a.sql = allOk) (hsaved : s.db.saved = none)
    (hwf : s.db.tables.WF) (transient : Bool) (h : s.db.tables.Previewed) :
    (s.wsignalSelection a name written mimeTypes transient).db.tables.Previewed := by
  by_cases hmime : mimeTypes = []
  · rw [wsignalSelection, if_pos (by rw [hmime]; rfl)]
    exact h
  cases transient with
  | true =>
    rw [wsignalSelection, if_neg (fun hl => hmime (List.length_eq_zero_iff.mp hl)), if_pos rfl,
      storeTransient]
    dsimp only
    split
    · exact h
    · exact h.retains (set_sameRows a.sql (some name) 0 _).retains
  | false =>
    have hbegun : databaseDoTransaction (a.sql .beginImmediate 0) .immediate s.db =
        (true, ⟨s.db.tables, some s.db.tables⟩) := by
      rw [hsql, allOk_apply]
      simp [databaseDoTransaction, hsaved]
    rw [wsignalSelection_eq hmime (by rw [hbegun])]
    refine Previewed.retains ?_ (trim_retains a _)
    rw [beforeTrim, hbegun]
    exact storeSelection_previewed (s := { s.clearTransient with
      db := ⟨s.db.tables, some s.db.tables⟩ }) hsql rfl hwf hmime h

end Event

/-- What is true between two steps. -/
structure KeepsPreviews (s : State) : Prop where
  reachable : Reachable s
  saved : s.db.saved = none
  tables : s.db.tables.Previewed
  disk : s.disk.Previewed

theorem startup_keepsPreviews {disk : Tables} (h : disk.Previewed) (config : Config) (a : Ambient) :
    (startup config a disk).db.tables.Previewed := by
  refine Previewed.retains ?_ (startup_retains config a disk)
  split
  · exact h
  · exact previewed_empty

theorem step_keepsPreviews {s : State} {i : Input} (hsql : ∀ n, (i.ambient n).sql = allOk)
    (h : s.KeepsPreviews) : (step s i).KeepsPreviews := by
  have hwf := h.reachable.wf.db.tables
  have hfile : s.file.Previewed := by
    refine file_of ?_ h.disk
    rw [committed_of_saved h.saved]
    exact h.tables
  refine ⟨h.reachable.step i, step_saved hsql hwf h.saved, ?_, step_disk_of i hfile h.disk⟩
  · have htransition := step_transition s i
    generalize step s i = s' at htransition ⊢
    cases htransition with
    | quiet hevent hcore =>
      rw [hcore.db]
      exact h.tables
    | @restarted config hevent =>
      exact startup_keepsPreviews hfile config (i.ambient 0)
    | @delivered name seat written timerOk hevent hdelivers =>
      exact wsignalSelection_previewed (s := s.withOffer name seat) (hsql 0) h.saved hwf
        seat.transient h.tables
    | @served fd msg client hevent hclient =>
      exact h.tables.retains (messageCallback_retains i.ambient client msg s)

theorem run_keepsPreviews (config : Config) (a : Ambient) {inputs : List Input}
    (hinputs : ∀ i ∈ inputs, ∀ n, (i.ambient n).sql = allOk) :
    (run step (boot config a) inputs).KeepsPreviews := by
  apply run_invariant (C := fun _ i => ∀ n, (i.ambient n).sql = allOk) (I := KeepsPreviews)
  · exact fun s i hs hi => step_keepsPreviews hi hs
  · exact ⟨.boot config a, startup_saved config a Tables.empty,
      startup_keepsPreviews previewed_empty config a, previewed_empty⟩
  · exact Meets.of_mem fun i hi _ => hinputs i hi

/-! ## The reply -/

/-- The row of an entry when no call fails. -/
def historyRow (s : State) (e : Entry) : HistoryRow where
  id := e.id
  creationTime := e.creationTime
  updateTime := e.updateTime
  pinned := e.pinned
  current := s.id = e.id
  mimeTypes := s.db.tables.getMimeTypes e.id
  contentType := some (attributeText e.attributes.contentType)
  contentMimeType := some (attributeText e.attributes.contentMime)

theorem getEntryCallback_eq {a : Ambient} (hsql : a.sql = allOk) {s : State}
    (hwf : s.db.tables.WF) {e : Entry} (he : e ∈ s.db.tables.entries) (i : ℕ) :
    s.getEntryCallback a.sql i e = some (s.historyRow e) := by
  have hfind : s.db.tables.entries.find? (fun x => x.id = e.id) = some e := by
    cases hx : s.db.tables.entries.find? (fun x => x.id = e.id) with
    | none =>
      rw [List.find?_eq_none] at hx
      simpa using hx e he
    | some x =>
      have hid : x.id = e.id := by simpa using List.find?_some hx
      rw [hwf.idDistinct.eq (List.mem_of_find?_eq_some hx) he hid]
  simp only [getEntryCallback, hsql, allOk_apply, databaseGetMimeTypes, databaseGetAttribute,
    if_true, hfind, Option.map_some]
  rfl

theorem historyPage_eq {a : Ambient} (hsql : a.sql = allOk) {s : State} (hwf : s.db.tables.WF)
    (start n : ℤ) :
    s.historyPage a start n = (s.db.tables.getEntries start n).map s.historyRow := by
  have hrows : ∀ rows : List Entry, (∀ e ∈ rows, e ∈ s.db.tables.entries) →
      (rows.mapIdx fun i e => s.getEntryCallback a.sql i e) =
        rows.map fun e => some (s.historyRow e) := by
    intro rows hrows
    rw [List.mapIdx_eq_iff]
    intro i
    rw [List.getElem?_map]
    cases hi : rows[i]? with
    | none => rfl
    | some e =>
      rw [Option.map_some, Option.map_some, getEntryCallback_eq hsql hwf
        (hrows e (List.mem_of_getElem? hi))]
  rw [historyPage, hrows _ fun e he => mem_getEntries he, List.filterMap_map]
  exact congrFun List.filterMap_eq_map _

/-- The row names one of its types with the class of this type, and a client that asks for the data
of the type is sent it. -/
def Previews (a : Ambient) (fd : ℕ) (s : State) (row : HistoryRow) : Prop :=
  ∃ m ∈ row.mimeTypes, row.contentMimeType = some m.bytes ∧
    row.contentType = some (getContentType m).name.bytes ∧
    ∃ data ∈ s.db.tables.getData row.id m,
      (s.exchange a fd (.getData (some row.id) (some m))).replies = [.success (some data)]

instance (a : Ambient) (fd : ℕ) (s : State) (row : HistoryRow) : Decidable (s.Previews a fd row) :=
  inferInstanceAs (Decidable (∃ m ∈ row.mimeTypes, _ ∧ _ ∧ _))

/-- A descriptor can be named after the type for the preview, and made. -/
def PreviewFits (a : Ambient) (e : Entry) : Prop :=
  ∀ m ∈ e.attributes.contentMime, m.bytes.length ≤ memfdNameMax ∧ a.memfd = .ok

instance (a : Ambient) (e : Entry) : Decidable (PreviewFits a e) :=
  inferInstanceAs (Decidable (∀ m ∈ e.attributes.contentMime, _ ∧ _))

theorem memfdCreate_ok_iff {m : CString} {memfd : Memfd} :
    memfdCreate m memfd = .ok ↔ m.bytes.length ≤ memfdNameMax ∧ memfd = .ok := by
  rw [memfdCreate]
  split
  · exact iff_of_false (fun h => by cases h) fun h => absurd h.1 (by omega)
  · exact ⟨fun h => ⟨by omega, h⟩, And.right⟩

/-- A client that asks for data is sent it exactly if it is there and a descriptor can be made. -/
theorem exchange_getData_iff {a : Ambient} (hsql : a.sql = allOk) {s : State} {fd : ℕ}
    {client : Client} (hclient : s.findClient fd = some client) {id : ℤ} {m : CString}
    {data : Bytes} (hdata : s.db.tables.getData id m = some data) :
    (s.exchange a fd (.getData (some id) (some m))).replies = [.success (some data)] ↔
      memfdCreate m a.memfd = .ok := by
  have hundelayed := findClient_onClient_self (f := Client.undelayed) (fun _ => rfl) hclient
  have hfound : databaseGetData (a.sql .getDataRowid 0) id m (s.onClient fd Client.undelayed).db =
      some data := by
    rw [hsql]
    exact hdata
  have hreplies : ∀ msg : Message, msg.isEvent = false →
      (s.onClient fd Client.undelayed).requestCallback a fd (.getData (some id) (some m)) =
        (s.onClient fd Client.undelayed).onClient fd (Client.ipcCtWriteMsg msg) →
      (s.exchange a fd (.getData (some id) (some m))).replies = [msg] := by
    intro msg hevent hserved
    have hanswered := findClient_onClient_self (f := Client.ipcCtWriteMsg msg) (fun _ => rfl)
      hundelayed
    rw [exchange, hserved, hanswered]
    simp [Exchange.replies, Client.ipcCtWriteMsg, Client.undelayed, hevent]
  have herror : ∀ desc, (s.onClient fd Client.undelayed).requestCallback a fd
      (.getData (some id) (some m)) = (s.onClient fd Client.undelayed).sendError fd desc →
      (s.exchange a fd (.getData (some id) (some m))).replies ≠ [.success (some data)] := by
    intro desc hserved hsuccess
    rw [hreplies (.error (desc.take 255)) rfl hserved] at hsuccess
    cases hsuccess
  cases hmemfd : memfdCreate m a.memfd with
  | ok =>
    refine iff_of_true (hreplies _ rfl ?_) rfl
    simp only [requestCallback, serveGetData, hfound, hmemfd]
    rfl
  | notCreated strerror =>
    refine iff_of_false (herror (ascii "Error creating file descriptor: ".toList ++ strerror) ?_)
      fun h => by cases h
    simp only [requestCallback, serveGetData, hfound, hmemfd]
  | notMapped =>
    refine iff_of_false (herror (ascii "Error mapping file descriptor".toList) ?_)
      fun h => by cases h
    simp only [requestCallback, serveGetData, hfound, hmemfd]
  | notSealed =>
    refine iff_of_false (herror (ascii "Error sealing file descriptor".toList) ?_)
      fun h => by cases h
    simp only [requestCallback, serveGetData, hfound, hmemfd]

end State

theorem attributeText_name (ctype : ContentType) :
    attributeText (some ctype.name) = ctype.name.bytes := by
  cases ctype <;> rfl

/-- An entry whose attributes are in order has its preview listed, and the preview can be asked for,
exactly if the type is short enough. What is left of a type that is cut is still too long. -/
theorem State.previews_historyRow_iff {a : Ambient} (hsql : a.sql = allOk) {s : State}
    (hwf : s.db.tables.WF) {fd : ℕ} {client : Client} (hclient : s.findClient fd = some client)
    {e : Entry} {m : CString} {d : Digest} (hm : s.db.tables.mimeRow e.id m = some (some d))
    (hattributes : e.attributes = ⟨some (getContentType m).name, some m⟩) :
    s.Previews a fd (s.historyRow e) ↔ PreviewFits a e := by
  have hmime : (s.historyRow e).contentMimeType = some (m.bytes.take 255) := by
    rw [historyRow, hattributes]
    rfl
  have hclass : (s.historyRow e).contentType = some (getContentType m).name.bytes := by
    rw [historyRow, hattributes]
    exact congrArg some (attributeText_name _)
  rw [Previews, hmime, hclass]
  constructor
  · rintro ⟨m', -, hbytes, -, data, hdata, hsent⟩ x hx
    rw [hattributes] at hx
    obtain rfl := Option.some.inj hx
    obtain ⟨hshort, hok⟩ :=
      memfdCreate_ok_iff.mp ((exchange_getData_iff hsql hclient hdata).mp hsent)
    refine ⟨?_, hok⟩
    rw [← Option.some.inj hbytes, List.length_take] at hshort
    unfold memfdNameMax at hshort ⊢
    omega
  · intro hfits
    obtain ⟨hshort, hok⟩ := hfits m (by rw [hattributes]; rfl)
    obtain ⟨data, hof⟩ := Option.isSome_iff_exists.mp (dataOf_isSome hwf hm)
    have hdata : s.db.tables.getData e.id m = some data := by
      rw [getData_eq, hm]
      exact hof
    have htake : m.bytes.take 255 = m.bytes :=
      List.take_of_length_le (hshort.trans (by decide))
    rw [htake]
    exact ⟨m, mimeRow_isSome.mp (by rw [hm]; rfl), rfl, rfl, data, hdata,
      (exchange_getData_iff hsql hclient hdata).mpr (memfdCreate_ok_iff.mpr ⟨hshort, hok⟩)⟩

/-- In every run without a failing call, a client that asks for a page is sent the rows of its
entries, and their previews can be asked for exactly if these fit. -/
theorem history_previews_iff (config : Config) (a : Ambient) {inputs : List Input}
    (hinputs : ∀ i ∈ inputs, ∀ n, (i.ambient n).sql = allOk) {now : Ambient}
    (hsql : now.sql = allOk) {fd : ℕ} {client : Client}
    (hclient : (run step (boot config a) inputs).findClient fd = some client) (start n : ℤ) :
    (run step (boot config a) inputs).requestCallback now fd (.getHistory (some start) (some n)) =
        (run step (boot config a) inputs).onClient fd (ipcClientSend (.history
          ((run step (boot config a) inputs).historyPage now start n))) ∧
      ((∀ row ∈ (run step (boot config a) inputs).historyPage now start n,
          (run step (boot config a) inputs).Previews now fd row) ↔
        ∀ e ∈ (run step (boot config a) inputs).db.tables.getEntries start n,
          State.PreviewFits now e) := by
  have hkeeps := State.run_keepsPreviews config a hinputs
  generalize run step (boot config a) inputs = s at hkeeps hclient ⊢
  have hwf := hkeeps.reachable.wf.db.tables
  constructor
  · simp only [State.requestCallback, State.serveGetHistory, databaseGetEntries, hsql, allOk_apply,
      if_true, State.historyPage]
  · rw [State.historyPage_eq hsql hwf, List.forall_mem_map]
    refine forall_congr' fun e => forall_congr' fun he => ?_
    obtain ⟨m, d, hm, hattributes⟩ := hkeeps.tables e (mem_getEntries he)
    exact State.previews_historyRow_iff hsql hwf hclient hm hattributes

/-- A text is copied, and a client connects. -/
def copiedOf (type : CString) : State :=
  run step (boot configInit (.quiet 0))
    (.quiet (.addSeat 0 seat0) :: (copy (0, .regular) [(type, [65])] ++ [.quiet (.connect 0)]))

/-- The client asks for the first page. -/
theorem copiedText_previewed :
    ((copiedOf textPlain).historyPage (.quiet 0) 0 100).length = 1 ∧
      ∀ row ∈ (copiedOf textPlain).historyPage (.quiet 0) 0 100,
        (copiedOf textPlain).Previews (.quiet 0) 0 row := by
  obtain ⟨client, hclient⟩ : ∃ client, (copiedOf textPlain).findClient 0 = some client :=
    Option.isSome_iff_exists.mp (by decide +kernel)
  refine ⟨by decide +kernel,
    (history_previews_iff configInit (.quiet 0) ?_ rfl hclient 0 100).2.mpr ?_⟩
  · intro i hi
    rcases List.mem_cons.mp hi with rfl | hi
    · exact fun _ => rfl
    · rcases List.mem_append.mp hi with hi | hi
      · exact (undisturbed_copy _ _ i hi).sql
      · rw [List.mem_singleton.mp hi]
        exact fun _ => rfl
  · decide +kernel

/-- The text type with a long parameter. -/
def longText : CString where
  bytes := textPlain.bytes ++ ascii [';'] ++ List.replicate 300 97
  nonul := by decide +kernel

/-- The preview of an entry with a long type is not one of its types. -/
theorem longText_not_previewed :
    ((copiedOf longText).findClient 0).isSome = true ∧
      ∃ row ∈ (copiedOf longText).historyPage (.quiet 0) 0 100, row.mimeTypes = [longText] ∧
        row.contentMimeType ≠ some longText.bytes ∧
        ¬ (copiedOf longText).Previews (.quiet 0) 0 row := by
  decide +kernel

end Swayclip
