import Swayclip.Database.Tables

/-! # The database calls of the daemon

Each function of `database.c` steps one prepared statement. Whether SQLite carries a
statement out is an input: a statement that is refused has no effect on the tables and
leaves an open transaction open. The values `-1` and `NULL` that the functions return
on failure become `none`.
-/

namespace Swayclip

/-- The prepared statements. -/
inductive Stmt where
  | beginTransaction | beginImmediate | commitTransaction | rollbackTransaction
  | saveSetting | getSetting
  | newEntry | newMimeType | newData
  | getMimeTypes | getDataRowid
  | getHistorySize | getEntries | idExists | delEntry | updateEntry
  | saveAttribute | getAttribute | saveEntryHash | entryHashPos | updateSortIndex
  | getPinned | trim | clear

/-- Whether the `n`-th execution of a statement by one handler is carried out. -/
abbrev Sql := Stmt → ℕ → Bool

/-- No database call fails. -/
def allOk : Sql := fun _ _ => true

@[simp] theorem allOk_apply (stmt : Stmt) (n : ℕ) : allOk stmt n = true := rfl

/-- The connection: the tables it sees, and those to return to while a transaction is open. -/
structure Database where
  tables : Tables
  saved : Option Tables

namespace Database

/-- What a new connection finds in the file. -/
def committed (db : Database) : Tables := db.saved.getD db.tables

/-- Run a statement that changes the tables. -/
def exec (ok : Bool) (f : Tables → Option Tables) (db : Database) : Bool × Database :=
  match ok, f db.tables with
  | true, some t => (true, { db with tables := t })
  | _, _ => (false, db)

end Database

inductive Transaction where
  | begin
  | immediate
  | commit
  | rollback

def databaseDoTransaction (ok : Bool) (type : Transaction) (db : Database) : Bool × Database :=
  match ok, type, db.saved with
  | true, .begin, none => (true, { db with saved := some db.tables })
  | true, .immediate, none => (true, { db with saved := some db.tables })
  | true, .commit, some _ => (true, { db with saved := none })
  | true, .rollback, some t => (true, ⟨t, none⟩)
  | _, _, _ => (false, db)

def databaseSaveSetting (ok : Bool) (value : ℤ) (db : Database) : Bool × Database :=
  db.exec ok (fun t => some { t with lastEntry := some value })

def databaseGetSetting (ok : Bool) (db : Database) : Option ℤ :=
  if ok then db.tables.lastEntry else none

def databaseNewEntry (ok : Bool) (now : ℤ) (db : Database) : Option ℤ × Database :=
  if ok then (some db.tables.nextId, { db with tables := db.tables.newEntry now })
  else (none, db)

def databaseNewData (ok : Bool) (dataId : Digest) (data : Bytes) (db : Database) :
    Bool × Database :=
  db.exec ok (fun t => some (t.newData dataId data))

/-- Without data, `Data_id` is NULL; received data is `NULL` exactly when it is empty. -/
def databaseNewMimeType (okData okMime : Bool) (id : ℤ) (mime : CString) (dataId : Digest)
    (data : Bytes) (db : Database) : Bool × Database :=
  if data = [] then db.exec okMime (fun t => t.newMimeType id mime none)
  else
    let (ok, db) := databaseNewData okData dataId data db
    if ok then db.exec okMime (fun t => t.newMimeType id mime (some dataId)) else (false, db)

def databaseGetMimeTypes (ok : Bool) (id : ℤ) (db : Database) : Option (List CString) :=
  if ok then some (db.tables.getMimeTypes id) else none

def databaseGetData (ok : Bool) (id : ℤ) (mime : CString) (db : Database) : Option Bytes :=
  if ok then db.tables.getData id mime else none

def databaseGetEntries (ok : Bool) (start n : ℤ) (db : Database) : Option (List Entry) :=
  if ok then some (db.tables.getEntries start n) else none

def databaseGetHistorySize (ok : Bool) (db : Database) : Option ℤ :=
  if ok then some db.tables.entries.length else none

def databaseIdExists (ok : Bool) (id : ℤ) (db : Database) : Bool :=
  ok && db.tables.idExists id

def databaseDeleteEntry (ok : Bool) (id : ℤ) (db : Database) : Bool × Database :=
  db.exec ok (fun t => some (t.delEntry id))

/-- The new update time, if the statement succeeds; it does so also when no row matches. -/
def databaseUpdateEntry (ok : Bool) (now id : ℤ) (pinned : Option Bool) (db : Database) :
    Option ℤ × Database :=
  if ok then (some now, { db with tables := db.tables.updateEntry now pinned id })
  else (none, db)

def databaseSaveAttribute (ok : Bool) (id : ℤ) (key : AttributeKey) (value : CString)
    (db : Database) : Bool × Database :=
  db.exec ok (fun t => some (t.saveAttribute key value id))

/-- The text of an attribute; no row, no value. -/
def databaseGetAttribute (ok : Bool) (id : ℤ) (key : AttributeKey) (db : Database) :
    Option (Option CString) :=
  if ok then
    (db.tables.entries.find? (fun e => e.id = id)).map (fun e => match key with
      | .contentType => e.attributes.contentType
      | .contentMime => e.attributes.contentMime)
  else none

/-- With id `-1`, every entry that carries the hash loses it. -/
def databaseSetEntryHash (ok : Bool) (id : ℤ) (hash : Digest) (db : Database) : Bool × Database :=
  if id = -1 then db.exec ok (fun t => t.saveEntryHash none none (some hash))
  else db.exec ok (fun t => t.saveEntryHash (some hash) (some id) none)

def databaseEntryHashPos (ok : Bool) (hash : Digest) (db : Database) : Option (ℤ × ℤ) :=
  if ok then db.tables.entryHashPos hash else none

def databaseUpdateSortIndex (ok : Bool) (id : ℤ) (db : Database) : Bool × Database :=
  db.exec ok (fun t => some (t.updateSortIndex id))

def databaseEntryIsPinned (ok : Bool) (id : ℤ) (db : Database) : Bool :=
  ok && db.tables.entries.any (fun e => e.id = id && e.pinned)

/-- The ids for which the callback is invoked, and the database after. -/
def databaseTrim (ok : Bool) (maxEntries : ℕ) (db : Database) : List ℤ × Database :=
  if ok then ((db.tables.trim maxEntries).1, { db with tables := (db.tables.trim maxEntries).2 })
  else ([], db)

def databaseClear (ok : Bool) (db : Database) : Bool × Database :=
  db.exec ok (fun t => some t.clear)

/-- Opening the file and the initial trim. -/
def databaseInit (ok : Bool) (maxEntries : ℕ) (file : Tables) : Database :=
  (databaseTrim ok maxEntries ⟨file, none⟩).2

end Swayclip
