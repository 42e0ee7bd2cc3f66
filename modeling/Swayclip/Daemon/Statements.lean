import Swayclip.Daemon.Transitions

/-! # The statements behind a selection event

Whatever fails, what a selection event does to the database is a few statements in a row, some of
them between the commands of a transaction. None of them deletes an entry but the trailing trim,
and none of them changes a pin flag.
-/

namespace Swayclip
open Library.Ranking

namespace Tables

/-- What a statement that no request asks for does to the tables. -/
inductive Statement (t : Tables) : Tables → Prop
  | saveSetting (value : ℤ) : Statement t { t with lastEntry := some value }
  | newEntry (now : ℤ) : Statement t (t.newEntry now)
  | newData (dataId : Digest) (data : Bytes) : Statement t (t.newData dataId data)
  | newMimeType {t' : Tables} {id : ℤ} {mime : CString} {dataId : Option Digest}
      (h : t.newMimeType id mime dataId = some t') : Statement t t'
  | saveAttribute (key : AttributeKey) (value : CString) (id : ℤ) :
      Statement t (t.saveAttribute key value id)
  | saveEntryHash {t' : Tables} {value : Option Digest} {id : Option ℤ} {hash : Option Digest}
      (h : t.saveEntryHash value id hash = some t') : Statement t t'
  | updateSortIndex (id : ℤ) : Statement t (t.updateSortIndex id)
  | refresh (now id : ℤ) : Statement t (t.updateEntry now none id)
  | trim (offset : ℕ) : Statement t (t.trim offset).2

theorem Statement.wf {t t' : Tables} (h : Statement t t') (ht : t.WF) : t'.WF := by
  cases h with
  | saveSetting value => exact SameRows.wf (t := t) ⟨rfl, rfl, rfl, rfl⟩ ht
  | newEntry now => exact newEntry_wf ht now
  | newData dataId data => exact newData_wf ht dataId data
  | newMimeType h => exact newMimeType_wf ht h
  | saveAttribute key value id => exact saveAttribute_wf ht key value id
  | saveEntryHash h => exact saveEntryHash_wf ht h
  | updateSortIndex id => exact updateSortIndex_wf ht id
  | refresh now id => exact updateEntry_wf ht now none id
  | trim offset => exact trim_wf ht offset

end Tables

namespace Database

/-- What the connection carries out. -/
inductive Exec (db : Database) : Database → Prop
  | statement {t : Tables} (h : db.tables.Statement t) : Exec db { db with tables := t }
  | transaction (ok : Bool) (type : Transaction) : Exec db (databaseDoTransaction ok type db).2

abbrev Execs : Database → Database → Prop := Relation.ReflTransGen Exec

/-- The property holds of the tables in view, and of those that a rollback returns to. -/
structure Both (I : Tables → Prop) (db : Database) : Prop where
  tables : I db.tables
  saved : ∀ t, db.saved = some t → I t

theorem Both.of_committed {I : Tables → Prop} {db : Database} (h : db.Both I) : I db.committed := by
  rw [committed]
  cases hs : db.saved with
  | none => exact h.tables
  | some t => exact h.saved t hs

theorem Exec.both {I : Tables → Prop} (hI : ∀ t t', t.Statement t' → I t → I t')
    {db db' : Database} (h : Exec db db') (hdb : db.Both I) : db'.Both I := by
  cases h with
  | statement h => exact ⟨hI _ _ h hdb.tables, hdb.saved⟩
  | transaction ok type =>
    obtain ⟨tables, saved⟩ := db
    have hopen : Both I ⟨tables, some tables⟩ :=
      ⟨hdb.tables, fun t ht => Option.some.inj ht ▸ hdb.tables⟩
    have hclosed : ∀ t, I t → Both I ⟨t, none⟩ :=
      fun t ht => ⟨ht, fun _ hnone => absurd hnone (Option.some_ne_none _).symm⟩
    cases ok with
    | false => exact hdb
    | true =>
      cases saved with
      | none =>
        cases type with
        | begin | immediate => exact hopen
        | commit | rollback => exact hdb
      | some t =>
        cases type with
        | begin | immediate => exact hdb
        | commit => exact hclosed tables hdb.tables
        | rollback => exact hclosed t (hdb.saved t rfl)

theorem Execs.both {I : Tables → Prop} (hI : ∀ t t', t.Statement t' → I t → I t')
    {db db' : Database} (h : Execs db db') (hdb : db.Both I) : db'.Both I :=
  Library.Runs.preserve h (fun _ _ hexec => hexec.both hI) hdb

end Database

open Database Tables

/-! ## The calls -/

theorem exec_execs {db : Database} {f : Tables → Option Tables}
    (hf : ∀ t, f db.tables = some t → db.tables.Statement t) (ok : Bool) :
    Execs db (db.exec ok f).2 := by
  unfold exec
  split
  · rename_i t ht
    exact .single (.statement (hf t ht))
  · exact .refl

theorem databaseNewMimeType_execs (okData okMime : Bool) (id : ℤ) (mime : CString)
    (dataId : Digest) (data : Bytes) (db : Database) :
    Execs db (databaseNewMimeType okData okMime id mime dataId data db).2 := by
  have hmime : ∀ (db : Database) (d : Option Digest),
      Execs db (db.exec okMime fun t => t.newMimeType id mime d).2 :=
    fun db d => exec_execs (fun _ => .newMimeType) okMime
  have hdata : Execs db (databaseNewData okData dataId data db).2 :=
    exec_execs (fun t ht => Option.some.inj ht ▸ .newData dataId data) okData
  unfold databaseNewMimeType
  split
  · exact hmime db none
  · dsimp only
    split
    · exact hdata.trans (hmime _ _)
    · exact hdata

theorem databaseSetEntryHash_execs (ok : Bool) (id : ℤ) (hash : Digest) (db : Database) :
    Execs db (databaseSetEntryHash ok id hash db).2 := by
  unfold databaseSetEntryHash
  split <;> exact exec_execs (fun _ => .saveEntryHash) ok

theorem databaseSaveAttribute_execs (ok : Bool) (id : ℤ) (key : AttributeKey) (value : CString)
    (db : Database) : Execs db (databaseSaveAttribute ok id key value db).2 :=
  exec_execs (fun _ ht => Option.some.inj ht ▸ .saveAttribute key value id) ok

theorem databaseTrim_execs (ok : Bool) (maxEntries : ℕ) (db : Database) :
    Execs db (databaseTrim ok maxEntries db).2 := by
  cases ok with
  | false => exact .refl
  | true => exact .single (.statement (.trim maxEntries))

/-! ## The transaction -/

theorem deduplicate_execs (dedup : Dedup) (sql : Sql) (hash : Digest) (o : Outcome)
    (db : Database) : Execs db (deduplicate dedup sql hash o db).2 := by
  unfold deduplicate
  split
  · exact databaseSetEntryHash_execs ..
  · split
    · exact .refl
    · dsimp only
      split
      · exact .refl
      · split
        · exact databaseSetEntryHash_execs ..
        · exact .refl
  · split
    · exact .refl
    · dsimp only
      split <;> exact .refl

theorem receiveMimeTypes_execs {db : Database} {r : Receiving} (h : Execs db r.db)
    (config : Config) (sql : Sql) (written : ℕ → Option Bytes) (id : ℤ) (i : ℕ)
    (mimeTypes : List CString) :
    Execs db (receiveMimeTypes config sql written id i mimeTypes r).2.db := by
  induction mimeTypes generalizing i r with
  | nil => exact h
  | cons m mimeTypes ih =>
    rw [receiveMimeTypes]
    split
    · exact h
    · rename_i data _
      have hcall := h.trans (databaseNewMimeType_execs (sql .newData i) (sql .newMimeType i) id m
        (sha256 data) data r.db)
      dsimp only
      split
      · exact hcall
      · refine ih ?_ _
        rwa [Receiving.noteContent_db]

theorem settleEntry_execs (dedup : Dedup) (sql : Sql) (hash : Digest) (o : Outcome)
    (db : Database) : Execs db (settleEntry dedup sql hash o db).2 := by
  have hdedup := deduplicate_execs dedup sql hash o db
  unfold settleEntry
  dsimp only
  split
  · exact hdedup.trans (databaseSetEntryHash_execs ..)
  · exact hdedup

theorem selectionTransaction_execs (config : Config) (a : Ambient) (written : ℕ → Option Bytes)
    (mimeTypes : List CString) (db : Database) :
    Execs db (selectionTransaction config a written mimeTypes db).2 := by
  unfold selectionTransaction databaseNewEntry
  split <;> rename_i he <;> split at he <;> cases he
  · exact .refl
  · have hnew : Execs db { db with tables := db.tables.newEntry a.now } :=
      .single (.statement (.newEntry a.now))
    have hloop := receiveMimeTypes_execs
      (r := ⟨{ db with tables := db.tables.newEntry a.now }, Sha256.init, .unknown, none⟩) hnew
      config a.sql written db.tables.nextId 0 mimeTypes
    split <;> rename_i r hr <;> rw [hr] at hloop
    · exact hloop
    · exact hloop.trans (settleEntry_execs ..)

namespace State

theorem refresh_execs (a : Ambient) (id : ℤ) (s : State) :
    Execs s.db (s.update a id none).2.db := by
  simp only [update, databaseUpdateEntry]
  cases a.sql .updateEntry 0 with
  | true => exact .single (.statement (.refresh a.now id))
  | false => exact .refl

theorem set_execs (sql : Sql) (ignore : Option SelectionName) (id : ℤ) (s : State) :
    Execs s.db (s.set sql ignore id).db := by
  rw [set_db]
  split
  · exact exec_execs (fun _ ht => Option.some.inj ht ▸ .saveSetting id) _
  · exact .refl

theorem trim_execs (a : Ambient) (s : State) : Execs s.db (s.trim a).db :=
  databaseTrim_execs (a.sql .trim 0) s.config.maxEntries s.db

theorem saveAttributes_execs (sql : Sql) (o : Outcome) (s : State) :
    Execs s.db (s.saveAttributes sql o).db := by
  have hclass := databaseSaveAttribute_execs (sql .saveAttribute 0) o.id .contentType o.ctype.name
    s.db
  unfold saveAttributes
  dsimp only
  split
  · exact hclass
  · exact hclass.trans (databaseSaveAttribute_execs ..)

theorem finishTransaction_execs (a : Ambient) (o : Outcome) (db : Database) (s : State) :
    Execs db (s.finishTransaction a o db).2.db := by
  have hend : Execs db (if o.ret then (databaseDoTransaction (a.sql .commitTransaction 0) .commit
      db).2 else (databaseDoTransaction (a.sql .rollbackTransaction 0) .rollback db).2) := by
    split <;> exact .single (.transaction ..)
  unfold finishTransaction
  generalize (if o.ret then (databaseDoTransaction (a.sql .commitTransaction 0) .commit db).2
    else (databaseDoTransaction (a.sql .rollbackTransaction 0) .rollback db).2) = db' at hend ⊢
  dsimp only
  have hsort : Execs db' (databaseUpdateSortIndex (a.sql .updateSortIndex 0) o.id db').2 :=
    exec_execs (fun _ ht => Option.some.inj ht ▸ .updateSortIndex o.id) _
  split
  · split <;> rename_i db'' he <;> rw [he] at hsort
    · exact (hend.trans hsort).trans (refresh_execs a o.id { s with db := db'' })
    · exact hend.trans hsort
  · exact hend

theorem storeSelection_execs (a : Ambient) (name : SelectionName) (written : ℕ → Option Bytes)
    (mimeTypes : List CString) (s : State) :
    Execs s.db (s.storeSelection a name written mimeTypes).db := by
  have htransaction := selectionTransaction_execs s.config a written mimeTypes s.db
  unfold storeSelection
  split
  rename_i o db he
  rw [he] at htransaction
  have hfinish := htransaction.trans (finishTransaction_execs a o db s)
  split <;> rename_i s' hf <;> rw [hf] at hfinish
  · split
    · exact hfinish.trans (set_execs a.sql (some name) o.id
        { s' with ipc := ipcEventEntryMove o.id o.oldPos 0 s'.ipc })
    · have hattributes := hfinish.trans (saveAttributes_execs a.sql o s')
      exact hattributes.trans (set_execs a.sql (some name) o.id { s'.saveAttributes a.sql o with
        ipc := ipcEventEntryAdd o.id (s'.saveAttributes a.sql o).ipc })
  · split <;> exact hfinish

theorem wsignalSelection_execs (a : Ambient) (name : SelectionName) (written : ℕ → Option Bytes)
    (mimeTypes : List CString) (transient : Bool) (s : State) :
    Execs s.db (s.wsignalSelection a name written mimeTypes transient).db := by
  unfold wsignalSelection storeTransient
  split
  · exact .refl
  · dsimp only
    split
    · split
      · exact .refl
      · rename_i data _
        exact set_execs a.sql (some name) 0 { s.clearTransient with id := -1, transient := data }
    · split
      · exact .refl
      · rename_i db he
        have hbegin : Execs s.db db := by
          have hone : Exec s.db
              (databaseDoTransaction (a.sql .beginImmediate 0) .immediate s.db).2 :=
            .transaction (a.sql .beginImmediate 0) .immediate
          rw [clearTransient] at he
          rw [he] at hone
          exact .single hone
        have hstore := storeSelection_execs a name written mimeTypes
          { s.clearTransient with db := db }
        exact (hbegin.trans hstore).trans (trim_execs a _)

end State

end Swayclip
