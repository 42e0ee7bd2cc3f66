import Swayclip.Daemon.Outcomes

/-! # When an event is stored

An event becomes an entry if the statements on the way are carried out: those that create the
row, store the types and the data, find the hash free or take it from the entry that carries it,
and commit. Whether it does can be told beforehand.
-/

namespace Swayclip
open Library.Ranking Tables

/-- The statements that store the types from the `i`-th on. -/
def storesTypes (sql : Sql) : ℕ → Content → Bool
  | _, [] => true
  | i, e :: content =>
    sql .newMimeType i && (e.2 = [] || sql .newData i) && storesTypes sql (i + 1) content

/-- The hash is free for a new entry, or the entry that carries it gives it up. -/
def freesHash (dedup : Dedup) (sql : Sql) (hash : Digest) (t : Tables) : Bool :=
  match dedup, t.entryHashPos hash with
  | .none, _ => sql .saveEntryHash 0
  | _, none => true
  | .prev, some (_, pos) => pos ≠ 0 && sql .entryHashPos 0 && sql .saveEntryHash 0
  | .all, some _ => false

/-- The transaction of an event with the content is to be committed. -/
def Ambient.completes (a : Ambient) (dedup : Dedup) (content : Content) (t : Tables) : Bool :=
  a.sql .newEntry 0 && storesTypes a.sql 0 content && freesHash dedup a.sql content.hash t &&
    a.sql .saveEntryHash 1

/-- The content is recognised as that of an entry, and not to be added. -/
def Ambient.recognizes (a : Ambient) (dedup : Dedup) (content : Content) (t : Tables) : Bool :=
  a.sql .newEntry 0 && storesTypes a.sql 0 content && a.sql .entryHashPos 0 &&
    verdict dedup content.hash t ≠ .add

def Ambient.stores (a : Ambient) (dedup : Dedup) (content : Content) (t : Tables) : Bool :=
  a.sql .beginImmediate 0 && a.completes dedup content t && a.sql .commitTransaction 0

theorem stores_quiet {a : Ambient} (hsql : a.sql = allOk) (dedup : Dedup) (content : Content)
    (t : Tables) : a.stores dedup content t = true ↔ verdict dedup content.hash t = .add := by
  have htypes : ∀ i, storesTypes allOk i content = true := by
    intro i
    induction content generalizing i with
    | nil => rfl
    | cons e content ih => simp [storesTypes, ih]
  simp only [Ambient.stores, Ambient.completes, hsql, allOk_apply, htypes, Bool.true_and,
    Bool.and_true]
  cases hpos : t.entryHashPos content.hash with
  | none => cases dedup <;> simp [freesHash, verdict, hpos]
  | some p =>
    obtain ⟨id, pos⟩ := p
    cases dedup with
    | none => simp [freesHash, verdict]
    | prev => by_cases h0 : pos = 0 <;> simp [freesHash, verdict, hpos, h0]
    | all => by_cases h0 : pos = 0 <;> simp [freesHash, verdict, hpos, h0]

theorem databaseNewMimeType_fst {id : ℤ} {db : Database} (hid : db.tables.idExists id = true)
    (okData okMime : Bool) (m : CString) (data : Bytes) :
    (databaseNewMimeType okData okMime id m (sha256 data) data db).1 =
      (okMime && (data = [] || okData)) := by
  obtain ⟨t, ht, -⟩ := storeType_spec hid (m, data)
  have hok := databaseNewMimeType_ok ht
  unfold databaseNewMimeType databaseNewData at hok ⊢
  by_cases hempty : data = []
  · simp only [hempty, if_true] at hok ⊢
    cases okMime with
    | false => simp [Database.exec]
    | true => simp [hok]
  · simp only [hempty, if_false] at hok ⊢
    cases okData with
    | false => simp [Database.exec]
    | true =>
      cases okMime with
      | false => simp [Database.exec]
      | true => simp [hok]

/-- The loop gets through exactly if everything is received and stored. -/
theorem receiveMimeTypes_fst (config : Config) (sql : Sql) (written : ℕ → Option Bytes) {id : ℤ}
    (i : ℕ) (mimeTypes : List CString) {r : Receiving} (hid : r.db.tables.idExists id = true) :
    (receiveMimeTypes config sql written id i mimeTypes r).1 =
      (receiveAll config written i mimeTypes).any (storesTypes sql i) := by
  induction mimeTypes generalizing i r with
  | nil => rfl
  | cons m mimeTypes ih =>
    rw [receiveMimeTypes, receiveAll]
    cases hdata : receiveData config (written i) with
    | none => rfl
    | some data =>
      dsimp only
      have hfst := databaseNewMimeType_fst hid (sql .newData i) (sql .newMimeType i) m data
      cases hok : (sql .newMimeType i && (data = [] || sql .newData i)) with
      | false =>
        rw [hok] at hfst
        simp only [hfst, Bool.not_false, if_true]
        cases receiveAll config written (i + 1) mimeTypes with
        | none => rfl
        | some content => simp [storesTypes, hok]
      | true =>
        rw [hok] at hfst
        obtain ⟨t, ht, hcall⟩ := databaseNewMimeType_true hfst
        obtain ⟨t', ht', hs, -⟩ := storeType_spec hid (m, data)
        obtain rfl := Option.some.inj (ht.symm.trans ht')
        simp only [hcall, Bool.not_true, Bool.false_eq_true, if_false]
        rw [ih _ (by rw [Receiving.noteContent_db]; exact (hs.idExists id).trans hid)]
        cases receiveAll config written (i + 1) mimeTypes with
        | none => rfl
        | some content => simp [storesTypes, hok]

theorem databaseSetEntryHash_fst {ok : Bool} {id : ℤ} {hash : Digest} (hid : id ≠ -1)
    {db : Database} (hd : Distinct Entry.id db.tables.entries)
    (hex : db.tables.idExists id = true) :
    (databaseSetEntryHash ok id hash db).1 = true ↔
      ok = true ∧ ∀ e ∈ db.tables.entries, e.id ≠ id → e.hash ≠ some hash := by
  constructor
  · intro h
    rw [databaseSetEntryHash, if_neg hid] at h
    obtain ⟨t', ht', -⟩ := Database.exec_true h
    refine ⟨?_, ((saveEntryHash_take_iff hd hex hash).mp ht').1⟩
    cases ok with
    | true => rfl
    | false => simp [Database.exec] at h
  · rintro ⟨rfl, hno⟩
    exact databaseSetEntryHash_ok hid hd hex hno

section Hash
variable {t : Tables} {now : ℤ} {content : Content} {db : Database}

theorem takesHash_inProgress (h : t.WF)
    (hstore : (t.newEntry now).storeContent t.nextId content = some db.tables) (ok : Bool) :
    (databaseSetEntryHash ok t.nextId content.hash db).1 =
      ((t.entryHashPos content.hash).isNone && ok) := by
  have hs := stored_inProgress hstore
  have hne := nextId_ne h
  have hwf : db.tables.WF := storeContent_wf (newEntry_wf h now) hstore
  have hex : db.tables.idExists t.nextId = true := (hs.idExists _).trans (idExists_newEntry t now)
  have hfree : (∀ e ∈ db.tables.entries, e.id ≠ t.nextId → e.hash ≠ some content.hash) ↔
      t.entryHashPos content.hash = none := by
    rw [entryHashPos_eq_none, hs.entries]
    simp only [newEntry, List.mem_append, List.mem_singleton, or_imp, forall_and, forall_eq]
    exact ⟨fun hno e he => hno.1 e he (id_lt_nextId he).ne,
      fun hno => ⟨fun e he _ => hno e he, fun hx => absurd rfl hx⟩⟩
  rw [Bool.eq_iff_iff, databaseSetEntryHash_fst hne hwf.idDistinct hex, hfree, Bool.and_eq_true,
    Option.isNone_iff_eq_none]
  exact and_comm

theorem takesHash_cleared (h : t.WF)
    (hstore : (t.newEntry now).storeContent t.nextId content = some db.tables) (ok : Bool) :
    (databaseSetEntryHash ok t.nextId content.hash
      { db with tables := clearHash content.hash db.tables }).1 = ok := by
  have hs := stored_inProgress hstore
  have hne := nextId_ne h
  have hwf : db.tables.WF := storeContent_wf (newEntry_wf h now) hstore
  have hex : db.tables.idExists t.nextId = true := (hs.idExists _).trans (idExists_newEntry t now)
  rw [Bool.eq_iff_iff, databaseSetEntryHash_fst hne
    (by rw [Distinct, clearHash_ids]; exact hwf.idDistinct)
    (by rw [idExists_iff_mem, clearHash_ids, ← idExists_iff_mem]; exact hex)]
  exact and_iff_left fun e he _ => clearHash_free content.hash db.tables e he

end Hash

theorem settleEntry_ret {dedup : Dedup} {t : Tables} (h : t.WF) {now : ℤ} {content : Content}
    {sql : Sql} {db : Database}
    (hstore : (t.newEntry now).storeContent t.nextId content = some db.tables) {o : Outcome}
    (hid : o.id = t.nextId) :
    (settleEntry dedup sql content.hash o db).1.ret =
      (freesHash dedup sql content.hash t && sql .saveEntryHash 1) := by
  have hs := stored_inProgress hstore
  have hpos := (databaseEntryHashPos_inProgress hs · content.hash)
  have htake := takesHash_inProgress h hstore
  have hcleared := takesHash_cleared h hstore
  cases dedup with
  | none =>
    cases hclear : sql .saveEntryHash 0 <;>
      simp [settleEntry, deduplicate, databaseSetEntryHash_clear, hclear, freesHash, hid, hcleared]
  | prev =>
    cases hp : t.entryHashPos content.hash with
    | none => simp [settleEntry, deduplicate, hpos, hp, hid, htake, freesHash]
    | some p =>
      obtain ⟨id, pos⟩ := p
      obtain ⟨x, -, -, -, hrank⟩ := entryHashPos_eq_some hp
      cases hfound : sql .entryHashPos 0 with
      | false => simp [settleEntry, deduplicate, hpos, hp, hfound, hid, htake, freesHash]
      | true =>
        by_cases hzero : pos = 0
        · simp [settleEntry, deduplicate, hpos, hp, hfound, hzero, freesHash]
        · have hpositive : pos > 0 := by omega
          cases hclear : sql .saveEntryHash 0 <;>
            simp [settleEntry, deduplicate, hpos, hp, hfound, hzero, hpositive,
              databaseSetEntryHash_clear, hclear, freesHash, hid, hcleared]
  | all =>
    cases hp : t.entryHashPos content.hash with
    | none => simp [settleEntry, deduplicate, hpos, hp, hid, htake, freesHash]
    | some p =>
      obtain ⟨id, pos⟩ := p
      cases hfound : sql .entryHashPos 0 with
      | false => simp [settleEntry, deduplicate, hpos, hp, hfound, hid, htake, freesHash]
      | true =>
        by_cases hzero : pos = 0 <;>
          simp [settleEntry, deduplicate, hpos, hp, hfound, hzero, freesHash]

/-- What the transaction comes to is settled after the loop, if the loop gets through. -/
theorem selectionTransaction_settled (db : Database) (config : Config) (a : Ambient)
    (written : ℕ → Option Bytes) (mimeTypes : List CString) :
    (∃ (content : Content) (o : Outcome) (db' : Database),
        receiveAll config written 0 mimeTypes = some content ∧
        (a.sql .newEntry 0 && storesTypes a.sql 0 content) = true ∧
        (db.tables.newEntry a.now).storeContent db.tables.nextId content = some db'.tables ∧
        (o.id = db.tables.nextId ∧ o.ignore = false ∧ o.moved = false) ∧
        selectionTransaction config a written mimeTypes db =
          settleEntry config.dedup a.sql content.hash o db') ∨
      (∀ content, receiveAll config written 0 mimeTypes = some content →
          (a.sql .newEntry 0 && storesTypes a.sql 0 content) = false) ∧
        ∃ o db', (o.ret = false ∧ o.ignore = false ∧ o.moved = false) ∧
          selectionTransaction config a written mimeTypes db = (o, db') := by
  unfold selectionTransaction databaseNewEntry
  cases hnew : a.sql .newEntry 0 with
  | false => exact Or.inr ⟨fun _ _ => rfl, _, _, ⟨rfl, rfl, rfl⟩, rfl⟩
  | true =>
    have hid := idExists_newEntry db.tables a.now
    have hfst := receiveMimeTypes_fst config a.sql written 0 mimeTypes
      (r := ⟨{ db with tables := db.tables.newEntry a.now }, Sha256.init, .unknown, none⟩) hid
    simp only [if_true, Bool.true_and]
    split <;> rename_i r hr <;> rw [hr] at hfst
    · refine Or.inr ⟨fun content hcontent => ?_, _, _, ⟨rfl, rfl, rfl⟩, rfl⟩
      rw [hcontent] at hfst
      exact hfst.symm
    · obtain ⟨content, hcontent, hstore, hsha⟩ := receiveMimeTypes_true hr
      have hhash : Sha256.final r.shaCtx = content.hash := by rw [hsha]; rfl
      rw [hcontent] at hfst
      rw [hhash]
      exact Or.inl ⟨content, _, r.db, hcontent, hfst.symm, hstore, ⟨rfl, rfl, rfl⟩, rfl⟩

/-- The transaction ends to be committed exactly if everything is received and stored. -/
theorem selectionTransaction_ret {db : Database} (h : db.WF) (config : Config) (a : Ambient)
    (written : ℕ → Option Bytes) (mimeTypes : List CString) :
    (selectionTransaction config a written mimeTypes db).1.ret =
      (receiveAll config written 0 mimeTypes).any
        (fun content => a.completes config.dedup content db.tables) := by
  rcases selectionTransaction_settled db config a written mimeTypes with
    ⟨content, o, db', hcontent, hloop, hstore, ⟨hid, -, -⟩, hsettled⟩ |
      ⟨hloop, o, db', ⟨hret, -, -⟩, hends⟩
  · rw [hsettled, settleEntry_ret h.tables hstore hid, hcontent, Option.any_some,
      Ambient.completes, hloop, Bool.true_and]
  · rw [hends, hret]
    cases hcontent : receiveAll config written 0 mimeTypes with
    | none => rfl
    | some content =>
      rw [Option.any_some, Ambient.completes, hloop content hcontent, Bool.false_and,
        Bool.false_and]

theorem settleEntry_recognized {dedup : Dedup} {t : Tables} {now : ℤ} {content : Content}
    {sql : Sql} {db : Database}
    (hstore : (t.newEntry now).storeContent t.nextId content = some db.tables) {o : Outcome}
    (hmoved : o.moved = false) (hignore : o.ignore = false) :
    ((settleEntry dedup sql content.hash o db).1.ignore ||
        (settleEntry dedup sql content.hash o db).1.moved) =
      (sql .entryHashPos 0 && verdict dedup content.hash t ≠ .add) := by
  have hs := stored_inProgress hstore
  have hpos := (databaseEntryHashPos_inProgress hs · content.hash)
  have hpass : ((settleEntry dedup sql content.hash o db).1.ignore ||
        (settleEntry dedup sql content.hash o db).1.moved) =
      ((deduplicate dedup sql content.hash o db).1.ignore ||
        (deduplicate dedup sql content.hash o db).1.moved) := by
    unfold settleEntry
    cases deduplicate dedup sql content.hash o db with
    | mk o₁ db₁ =>
      dsimp only
      split <;> rfl
  rw [hpass]
  cases dedup with
  | none => simp [deduplicate, hmoved, hignore, verdict]
  | prev =>
    cases hfound : sql .entryHashPos 0 with
    | false => simp [deduplicate, hpos, hfound, hmoved, hignore]
    | true =>
      cases hp : t.entryHashPos content.hash with
      | none => simp [deduplicate, hpos, hfound, hp, hmoved, hignore, verdict]
      | some p =>
        obtain ⟨id, pos⟩ := p
        by_cases hzero : pos = 0
        · simp [deduplicate, hpos, hfound, hp, hzero, verdict]
        · by_cases hpositive : pos > 0 <;>
            simp [deduplicate, hpos, hfound, hp, hzero, hpositive, hmoved, hignore, verdict]
  | all =>
    cases hfound : sql .entryHashPos 0 with
    | false => simp [deduplicate, hpos, hfound, hmoved, hignore]
    | true =>
      cases hp : t.entryHashPos content.hash with
      | none => simp [deduplicate, hpos, hfound, hp, hmoved, hignore, verdict]
      | some p =>
        obtain ⟨id, pos⟩ := p
        by_cases hzero : pos = 0 <;> simp [deduplicate, hpos, hfound, hp, hzero, verdict]

/-- The transaction ends to be ignored or replayed exactly if the content is recognised. -/
theorem selectionTransaction_recognized (db : Database) (config : Config) (a : Ambient)
    (written : ℕ → Option Bytes) (mimeTypes : List CString) :
    ((selectionTransaction config a written mimeTypes db).1.ignore ||
        (selectionTransaction config a written mimeTypes db).1.moved) =
      (receiveAll config written 0 mimeTypes).any
        (fun content => a.recognizes config.dedup content db.tables) := by
  rcases selectionTransaction_settled db config a written mimeTypes with
    ⟨content, o, db', hcontent, hloop, hstore, ⟨-, hignore, hmoved⟩, hsettled⟩ |
      ⟨hloop, o, db', ⟨-, hignore, hmoved⟩, hends⟩
  · rw [hsettled, settleEntry_recognized hstore hmoved hignore, hcontent, Option.any_some,
      Ambient.recognizes, hloop, Bool.true_and]
  · rw [hends, hignore, hmoved]
    cases hcontent : receiveAll config written 0 mimeTypes with
    | none => rfl
    | some content =>
      rw [Option.any_some, Ambient.recognizes, hloop content hcontent, Bool.false_and,
        Bool.false_and]
      rfl

end Swayclip
