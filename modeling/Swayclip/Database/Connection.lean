import Swayclip.Database.Calls
import Swayclip.Database.Content
import Swayclip.Database.Trim

/-! # The calls on well-formed tables

Every call keeps the constraints of the schema, on the tables in view and on those that a
rollback returns to, whether or not its statement is carried out.
-/

namespace Swayclip

/-- The same rows, while the setting may differ. -/
structure Tables.SameRows (t' t : Tables) : Prop where
  entries : t'.entries = t.entries
  mimeTypes : t'.mimeTypes = t.mimeTypes
  data : t'.data = t.data
  seq : t'.seq = t.seq

namespace Tables

theorem SameRows.refl (t : Tables) : t.SameRows t := ⟨rfl, rfl, rfl, rfl⟩

theorem SameRows.wf {t' t : Tables} (h : t'.SameRows t) (hwf : t.WF) : t'.WF := by
  obtain ⟨setting, entries, mimeTypes, data, seq⟩ := t'
  obtain ⟨rfl, rfl, rfl, rfl⟩ := h
  exact ⟨hwf.1, hwf.2, hwf.3, hwf.4, hwf.5, hwf.6, hwf.7, hwf.8⟩

theorem SameRows.view {t' t : Tables} (h : t'.SameRows t) : t'.view = t.view := by
  rw [Tables.view, Tables.history, h.entries, Tables.view, Tables.history]

end Tables

/-- All tables that the connection may show are well formed. -/
structure Database.WF (db : Database) : Prop where
  tables : db.tables.WF
  saved : ∀ t, db.saved = some t → t.WF

namespace Database

/-- A transaction that has changed nothing yet. -/
theorem wf_begun {db : Database} {t : Tables} (h : t.WF) (hdb : db = ⟨t, some t⟩) : db.WF := by
  rw [hdb]
  exact ⟨h, fun _ hsaved => Option.some.inj hsaved ▸ h⟩

theorem WF.committed {db : Database} (h : db.WF) : db.committed.WF := by
  rw [Database.committed]
  cases hs : db.saved with
  | none => exact h.tables
  | some t => exact h.saved t hs

theorem WF.set {db : Database} (h : db.WF) {t : Tables} (ht : t.WF) :
    ({ db with tables := t } : Database).WF := ⟨ht, h.saved⟩

@[simp] theorem exec_saved (ok : Bool) (f : Tables → Option Tables) (db : Database) :
    (db.exec ok f).2.saved = db.saved := by
  unfold exec
  split <;> rfl

theorem exec_wf {db : Database} (h : db.WF) {f : Tables → Option Tables}
    (hf : ∀ t, f db.tables = some t → t.WF) (ok : Bool) : (db.exec ok f).2.WF := by
  unfold exec
  split
  · rename_i t ht
    exact h.set (hf t ht)
  · exact h

theorem exec_some_wf {db : Database} (h : db.WF) {f : Tables → Tables} (hf : (f db.tables).WF)
    (ok : Bool) : (db.exec ok (fun t => some (f t))).2.WF :=
  exec_wf h (fun t ht => by rwa [← Option.some.inj ht]) ok

/-- A call that reports success has replaced the tables. -/
theorem exec_true {db : Database} {f : Tables → Option Tables} {ok : Bool}
    (h : (db.exec ok f).1 = true) :
    ∃ t, f db.tables = some t ∧ db.exec ok f = (true, { db with tables := t }) := by
  unfold exec at h ⊢
  split
  · rename_i t ht
    exact ⟨t, ht, rfl⟩
  · simp_all

theorem exec_ok {db : Database} {f : Tables → Option Tables} {t : Tables}
    (h : f db.tables = some t) : db.exec true f = (true, { db with tables := t }) := by
  simp [exec, h]

end Database

open Database

theorem databaseDoTransaction_wf {db : Database} (h : db.WF) (ok : Bool) (type : Transaction) :
    (databaseDoTransaction ok type db).2.WF := by
  unfold databaseDoTransaction
  split
  · exact wf_begun h.tables rfl
  · exact wf_begun h.tables rfl
  · exact ⟨h.tables, by simp⟩
  · rename_i t ht
    exact ⟨h.saved t ht, by simp⟩
  · exact h

theorem databaseSaveSetting_wf {db : Database} (h : db.WF) (ok : Bool) (value : ℤ) :
    (databaseSaveSetting ok value db).2.WF :=
  exec_some_wf h (Tables.SameRows.wf (t := db.tables) ⟨rfl, rfl, rfl, rfl⟩ h.tables) ok

theorem databaseSaveSetting_sameRows (ok : Bool) (value : ℤ) (db : Database) :
    (databaseSaveSetting ok value db).2.tables.SameRows db.tables := by
  cases ok <;> exact ⟨rfl, rfl, rfl, rfl⟩

@[simp] theorem databaseSaveSetting_saved (ok : Bool) (value : ℤ) (db : Database) :
    (databaseSaveSetting ok value db).2.saved = db.saved := exec_saved ..

theorem databaseNewEntry_wf {db : Database} (h : db.WF) (ok : Bool) (now : ℤ) :
    (databaseNewEntry ok now db).2.WF := by
  unfold databaseNewEntry
  split
  · exact h.set (Tables.newEntry_wf h.tables now)
  · exact h

theorem databaseNewMimeType_wf {db : Database} (h : db.WF) (okData okMime : Bool) (id : ℤ)
    (mime : CString) (dataId : Digest) (data : Bytes) :
    (databaseNewMimeType okData okMime id mime dataId data db).2.WF := by
  unfold databaseNewMimeType
  split
  · exact exec_wf h (fun _ => Tables.newMimeType_wf h.tables) okMime
  · have hdata : (databaseNewData okData dataId data db).2.WF :=
      exec_some_wf h (Tables.newData_wf h.tables dataId data) okData
    dsimp only
    split
    · exact exec_wf hdata (fun _ => Tables.newMimeType_wf hdata.tables) okMime
    · exact hdata

@[simp] theorem databaseNewMimeType_saved (okData okMime : Bool) (id : ℤ) (mime : CString)
    (dataId : Digest) (data : Bytes) (db : Database) :
    (databaseNewMimeType okData okMime id mime dataId data db).2.saved = db.saved := by
  unfold databaseNewMimeType databaseNewData
  split
  · exact exec_saved ..
  · dsimp only
    split <;> simp

theorem databaseSetEntryHash_wf {db : Database} (h : db.WF) (ok : Bool) (id : ℤ) (hash : Digest) :
    (databaseSetEntryHash ok id hash db).2.WF := by
  unfold databaseSetEntryHash
  split <;> exact exec_wf h (fun _ => Tables.saveEntryHash_wf h.tables) ok

@[simp] theorem databaseSetEntryHash_saved (ok : Bool) (id : ℤ) (hash : Digest) (db : Database) :
    (databaseSetEntryHash ok id hash db).2.saved = db.saved := by
  unfold databaseSetEntryHash
  split <;> exact exec_saved ..

theorem databaseUpdateSortIndex_wf {db : Database} (h : db.WF) (ok : Bool) (id : ℤ) :
    (databaseUpdateSortIndex ok id db).2.WF :=
  exec_some_wf h (Tables.updateSortIndex_wf h.tables id) ok

theorem databaseUpdateEntry_wf {db : Database} (h : db.WF) (ok : Bool) (now id : ℤ)
    (pinned : Option Bool) : (databaseUpdateEntry ok now id pinned db).2.WF := by
  unfold databaseUpdateEntry
  split
  · exact h.set (Tables.updateEntry_wf h.tables now pinned id)
  · exact h

theorem databaseSaveAttribute_wf {db : Database} (h : db.WF) (ok : Bool) (id : ℤ)
    (key : AttributeKey) (value : CString) : (databaseSaveAttribute ok id key value db).2.WF :=
  exec_some_wf h (Tables.saveAttribute_wf h.tables key value id) ok

theorem databaseDeleteEntry_wf {db : Database} (h : db.WF) (ok : Bool) (id : ℤ) :
    (databaseDeleteEntry ok id db).2.WF :=
  exec_some_wf h (Tables.delEntries_wf h.tables [id]) ok

theorem databaseClear_wf {db : Database} (h : db.WF) (ok : Bool) : (databaseClear ok db).2.WF :=
  exec_some_wf h (Tables.delEntries_wf h.tables _) ok

theorem databaseTrim_wf {db : Database} (h : db.WF) (ok : Bool) (maxEntries : ℕ) :
    (databaseTrim ok maxEntries db).2.WF := by
  unfold databaseTrim
  split
  · exact h.set (Tables.trim_wf h.tables maxEntries)
  · exact h

theorem databaseInit_wf {file : Tables} (h : file.WF) (ok : Bool) (maxEntries : ℕ) :
    (databaseInit ok maxEntries file).WF :=
  databaseTrim_wf ⟨h, by simp⟩ ok maxEntries

end Swayclip
