import Swayclip.Common.Sha256
import Swayclip.Library.Ranking

/-! # The database schema and its statements

The tables of `db_schema.sql` and the effect of each prepared statement on them,
triggers and cascades included. Rows of `Entries` are kept in rowid order. A statement
that breaks a constraint yields `none` and has no effect.
-/

namespace Swayclip
open Library.Ranking

/-- The JSON object of the `Attributes` column, with the two keys the daemon writes. -/
structure Attributes where
  contentType : Option CString
  contentMime : Option CString
deriving DecidableEq

inductive AttributeKey where
  | contentType
  | contentMime

/-- `json_set` on one of the keys. -/
def Attributes.set (a : Attributes) : AttributeKey → CString → Attributes
  | .contentType, v => { a with contentType := some v }
  | .contentMime, v => { a with contentMime := some v }

structure Entry where
  id : ℤ
  sortIndex : ℕ
  creationTime : ℤ
  updateTime : ℤ
  pinned : Bool
  hash : Option Digest
  attributes : Attributes
deriving DecidableEq

/-- A row of `Mime_types`; `dataId` is NULL when the type has no data. -/
structure MimeRow where
  id : ℤ
  mimeType : CString
  dataId : Option Digest
deriving DecidableEq

structure DataRow where
  dataId : Digest
  data : Bytes
deriving DecidableEq

/-- All tables. `lastEntry` is the only key of `Settings` in use, and `seq` is the
counter that `AUTOINCREMENT` keeps for `Entries`. -/
structure Tables where
  lastEntry : Option ℤ
  entries : List Entry
  mimeTypes : List MimeRow
  data : List DataRow
  seq : ℤ

namespace Tables

def empty : Tables := ⟨none, [], [], [], 0⟩

def maxSortIndex (t : Tables) : ℕ := (t.entries.map Entry.sortIndex).foldr max 0

/-- The next `AUTOINCREMENT` id exceeds the counter and every id in the table. -/
def nextId (t : Tables) : ℤ := (t.entries.map Entry.id).foldr max t.seq + 1

def idExists (t : Tables) (id : ℤ) : Bool := t.entries.any (fun e => e.id = id)

/-- `new_entry`, followed by the trigger `set_sort_index`. -/
def newEntry (now : ℤ) (t : Tables) : Tables :=
  { t with
    entries := t.entries ++ [⟨t.nextId, t.maxSortIndex + 1, now, now, false, none, ⟨none, none⟩⟩]
    seq := t.nextId }

/-- `new_data`: an existing row with the digest is kept. -/
def newData (dataId : Digest) (data : Bytes) (t : Tables) : Tables :=
  if t.data.any (fun r => r.dataId = dataId) then t
  else { t with data := t.data ++ [⟨dataId, data⟩] }

/-- `new_mime_type`: a second row with the same key is ignored; otherwise both foreign
keys must resolve. -/
def newMimeType (id : ℤ) (mime : CString) (dataId : Option Digest) (t : Tables) : Option Tables :=
  if t.mimeTypes.any (fun m => m.id = id ∧ m.mimeType = mime) then some t
  else if t.idExists id ∧ ∀ d ∈ dataId, t.data.any (fun r => r.dataId = d) then
    some { t with mimeTypes := t.mimeTypes ++ [⟨id, mime, dataId⟩] }
  else none

/-- The row of `Data` with the digest, as the join of `get_data_rowid` finds it. -/
def dataOf (t : Tables) (dataId : Digest) : Option Bytes :=
  (t.data.find? (fun r => r.dataId = dataId)).map DataRow.data

/-- `get_data_rowid` and the blob it leads to. -/
def getData (t : Tables) (id : ℤ) (mime : CString) : Option Bytes :=
  ((t.mimeTypes.find? (fun m => m.id = id ∧ m.mimeType = mime)).bind MimeRow.dataId).bind t.dataOf

/-- `get_mime_types`; a table `WITHOUT ROWID` is read in the order of its primary key. -/
def getMimeTypes (t : Tables) (id : ℤ) : List CString :=
  ((t.mimeTypes.filter (fun m => m.id = id)).map MimeRow.mimeType).insertionSort
    (fun a b => a.bytes ≤ b.bytes)

/-- Deleting one row of `Mime_types` fires the trigger `del_data_row`. -/
def delMimeType (t : Tables) (row : MimeRow) : Tables :=
  let rest := t.mimeTypes.filter (fun m => m ≠ row)
  { t with
    mimeTypes := rest
    data := match row.dataId with
      | none => t.data
      | some d => if rest.any (fun m => m.dataId = some d) then t.data
        else t.data.filter (fun r => r.dataId ≠ d) }

/-- Deleting one row of `Entries` cascades to its mime types, one row at a time. -/
def delEntry (t : Tables) (id : ℤ) : Tables :=
  (t.mimeTypes.filter (fun m => m.id = id)).foldl delMimeType
    { t with entries := t.entries.filter (fun e => e.id ≠ id) }

def delEntries (t : Tables) (ids : List ℤ) : Tables := ids.foldl delEntry t

/-- `update_entry`: `COALESCE(?, Pinned)` keeps the flag when the argument is NULL. -/
def updateEntry (now : ℤ) (pinned : Option Bool) (id : ℤ) (t : Tables) : Tables :=
  { t with entries := t.entries.map (fun e =>
      if e.id = id then { e with updateTime := now, pinned := pinned.getD e.pinned } else e) }

def saveAttribute (key : AttributeKey) (value : CString) (id : ℤ) (t : Tables) : Tables :=
  { t with entries := t.entries.map (fun e =>
      if e.id = id then { e with attributes := e.attributes.set key value } else e) }

/-- A row under `save_entry_hash`: a comparison with NULL hits no row. -/
def rehash (value : Option Digest) (id : Option ℤ) (hash : Option Digest) (e : Entry) : Entry :=
  if id = some e.id ∨ (hash ≠ none ∧ e.hash = hash) then { e with hash := value } else e

/-- `save_entry_hash`; `Hash` is unique. -/
def saveEntryHash (value : Option Digest) (id : Option ℤ) (hash : Option Digest) (t : Tables) :
    Option Tables :=
  if value = none ∨
      (t.entries.map (rehash value id hash)).countP (fun e => e.hash = value) ≤ 1 then
    some { t with entries := t.entries.map (rehash value id hash) }
  else none

def entryHashPos (hash : Digest) (t : Tables) : Option (ℤ × ℤ) :=
  (t.entries.find? (fun e => e.hash = some hash)).map
    (fun e => (e.id, (rank Entry.sortIndex t.entries e.sortIndex : ℤ)))

def updateSortIndex (id : ℤ) (t : Tables) : Tables :=
  { t with entries := t.entries.map (fun e =>
      if e.id = id then { e with sortIndex := t.maxSortIndex + 1 } else e) }

/-- The subquery of `trim`: unpinned ids, newest id first, after the first `offset`. -/
def trimIds (t : Tables) (offset : ℕ) : List ℤ :=
  ((sortDesc Entry.id (t.entries.filter (fun e => !e.pinned))).drop offset).map Entry.id

/-- `trim`; the ids are those that `RETURNING` yields. -/
def trim (offset : ℕ) (t : Tables) : List ℤ × Tables :=
  let ids := (t.entries.map Entry.id).filter (fun id => id ∈ t.trimIds offset)
  (ids, t.delEntries ids)

def clear (t : Tables) : Tables := t.delEntries (t.entries.map Entry.id)

/-- `ORDER BY Sort_index DESC`: the history as it is shown. -/
def history (t : Tables) : List Entry := sortDesc Entry.sortIndex t.entries

/-- `get_entries`: a negative limit is no limit, a negative offset is none. -/
def getEntries (t : Tables) (start n : ℤ) : List Entry :=
  let rows := t.history.drop start.toNat
  if n < 0 then rows else rows.take n.toNat

end Tables

end Swayclip
