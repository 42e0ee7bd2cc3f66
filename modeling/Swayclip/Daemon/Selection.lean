import Swayclip.Daemon.State

/-! # Storing a selection event

`wsignal_selection` receives the data of every mime type inside a transaction that
already holds the new row, decides by the hash of the content whether the row is kept,
and then replays a duplicate as an update of the old row. The trailing trim is separate.
-/

namespace Swayclip

/-- Content types in the order of `enum content_type`. -/
inductive ContentType where
  | unknown
  | binary
  | text
  | image
deriving DecidableEq

namespace ContentType

def toNat : ContentType → ℕ
  | .unknown => 0
  | .binary => 1
  | .text => 2
  | .image => 3

/-- `content_names`. -/
def name : ContentType → CString
  | .unknown => ⟨ascii ['u', 'n', 'k', 'n', 'o', 'w', 'n'], by decide⟩
  | .binary => ⟨ascii ['b', 'i', 'n', 'a', 'r', 'y'], by decide⟩
  | .text => ⟨ascii ['t', 'e', 'x', 't'], by decide⟩
  | .image => ⟨ascii ['i', 'm', 'a', 'g', 'e'], by decide⟩

end ContentType

def getContentType (mimeType : CString) : ContentType :=
  if ascii ['i', 'm', 'a', 'g', 'e', '/'] <+: mimeType.bytes then .image
  else if ascii ['t', 'e', 'x', 't', '/'] <+: mimeType.bytes then .text
  else .binary

def textPlain : CString :=
  ⟨ascii ['t', 'e', 'x', 't', '/', 'p', 'l', 'a', 'i', 'n'], by decide⟩

def textPlainUtf8 : CString :=
  ⟨textPlain.bytes ++
    ascii [';', 'c', 'h', 'a', 'r', 's', 'e', 't', '=', 'u', 't', 'f', '-', '8'], by decide⟩

/-- What the source client writes for a mime type, if `io_read` gets it all and it is not
too large. A pipe that is closed without a byte reports `POLLHUP` alone, and `io_read` fails. -/
def receiveData (config : Config) (written : Option Bytes) : Option Bytes :=
  written.filter (fun data =>
    data ≠ [] ∧ data.length ≤ config.maxSize ∧ data.length ≤ uint32Max)

/-- The data of every type from the `i`-th on, if all of it can be received. This is the loop
of the transient branch. -/
def receiveAll (config : Config) (written : ℕ → Option Bytes) :
    ℕ → List CString → Option (List (CString × Bytes))
  | _, [] => some []
  | i, mimeType :: mimeTypes =>
    match receiveData config (written i) with
    | none => none
    | some data =>
      (receiveAll config written (i + 1) mimeTypes).map ((mimeType, data) :: ·)

/-- The variables of `wsignal_selection` that its loop changes. -/
structure Receiving where
  db : Database
  shaCtx : Sha256.Ctx
  ctype : ContentType
  contentMime : Option CString

/-- The end of the loop body: a larger content type wins, plain text wins among text. -/
def Receiving.noteContent (mimeType : CString) (r : Receiving) : Receiving :=
  let mCtype := getContentType mimeType
  let r := if mCtype.toNat > r.ctype.toNat then
    { r with ctype := mCtype, contentMime := some mimeType } else r
  if r.ctype = .text ∧ (mimeType = textPlain ∨ mimeType = textPlainUtf8) then
    { r with contentMime := some mimeType }
  else r

/-- The loop over the mime types. The data is hashed in the pieces in which it arrives,
which is hashing it whole (`Sha256.update_append`). -/
def receiveMimeTypes (config : Config) (sql : Sql) (written : ℕ → Option Bytes) (id : ℤ) :
    ℕ → List CString → Receiving → Bool × Receiving
  | _, [], r => (true, r)
  | i, mimeType :: mimeTypes, r =>
    match receiveData config (written i) with
    | none => (false, r)
    | some data =>
      let dataId := sha256 data
      let shaCtx := Sha256.update (Sha256.update r.shaCtx mimeType.bytes) dataId.bytes
      let (ret, db) := databaseNewMimeType (sql .newData i) (sql .newMimeType i) id mimeType
        dataId data r.db
      let r := { r with db := db, shaCtx := shaCtx }
      if !ret then (false, r)
      else receiveMimeTypes config sql written id (i + 1) mimeTypes (r.noteContent mimeType)

/-- The variables that are read after the label `exit`. -/
structure Outcome where
  ret : Bool
  ignore : Bool
  moved : Bool
  id : ℤ
  oldPos : ℤ
  ctype : ContentType
  contentMime : Option CString

/-- The `switch` on the dedup mode, with the new row in the table but without a hash. -/
def deduplicate (dedup : Dedup) (sql : Sql) (entryHash : Digest) (o : Outcome) (db : Database) :
    Outcome × Database :=
  match dedup with
  | .none =>
    let (ret, db) := databaseSetEntryHash (sql .saveEntryHash 0) (-1) entryHash db
    ({ o with ret := ret }, db)
  | .prev =>
    match databaseEntryHashPos (sql .entryHashPos 0) entryHash db with
    | none => ({ o with ret := true }, db)
    | some (_, pos) =>
      let pos := pos - 1
      if pos = 0 then ({ o with ret := false, ignore := true }, db)
      else if pos > 0 then
        -- the old entry gives up its hash so that the new one can take it
        let (ret, db) := databaseSetEntryHash (sql .saveEntryHash 0) (-1) entryHash db
        ({ o with ret := ret }, db)
      else (o, db)
  | .all =>
    match databaseEntryHashPos (sql .entryHashPos 0) entryHash db with
    | none => ({ o with ret := true }, db)
    | some (dupId, pos) =>
      -- the row in progress is ahead of every other one
      let oldPos := pos - 1
      if oldPos = 0 then ({ o with ret := false, ignore := true, oldPos := oldPos }, db)
      else ({ o with ret := false, moved := true, id := dupId, oldPos := oldPos }, db)

/-- From the end of the loop to the label `exit`. -/
def settleEntry (dedup : Dedup) (sql : Sql) (entryHash : Digest) (o : Outcome) (db : Database) :
    Outcome × Database :=
  match deduplicate dedup sql entryHash o db with
  | (o, db) =>
    if o.ret then
      match databaseSetEntryHash (sql .saveEntryHash 1) o.id entryHash db with
      | (ret, db) => ({ o with ret := ret }, db)
    else (o, db)

/-- From `database_new_entry` to the label `exit`, inside the open transaction. -/
def selectionTransaction (config : Config) (a : Ambient) (written : ℕ → Option Bytes)
    (mimeTypes : List CString) (db : Database) : Outcome × Database :=
  match databaseNewEntry (a.sql .newEntry 0) a.now db with
  | (none, db) => (⟨false, false, false, -1, 0, .unknown, none⟩, db)
  | (some id, db) =>
    match receiveMimeTypes config a.sql written id 0 mimeTypes
      ⟨db, Sha256.init, .unknown, none⟩ with
    | (false, r) => (⟨false, false, false, id, 0, r.ctype, r.contentMime⟩, r.db)
    | (true, r) => settleEntry config.dedup a.sql (Sha256.final r.shaCtx)
        ⟨false, false, false, id, 0, r.ctype, r.contentMime⟩ r.db

namespace State

/-- The attributes are saved without looking at the result. -/
def saveAttributes (sql : Sql) (o : Outcome) (s : State) : State :=
  let s := { s with db :=
    (databaseSaveAttribute (sql .saveAttribute 0) o.id .contentType o.ctype.name s.db).2 }
  match o.contentMime with
  | none => s
  | some mimeType => { s with db :=
      (databaseSaveAttribute (sql .saveAttribute 1) o.id .contentMime mimeType s.db).2 }

/-- Ending the transaction, and the update of a moved entry outside of it. -/
def finishTransaction (a : Ambient) (o : Outcome) (db : Database) (s : State) : Bool × State :=
  let db := if o.ret then (databaseDoTransaction (a.sql .commitTransaction 0) .commit db).2
    else (databaseDoTransaction (a.sql .rollbackTransaction 0) .rollback db).2
  if o.moved then
    match databaseUpdateSortIndex (a.sql .updateSortIndex 0) o.id db with
    | (true, db) => { s with db := db }.update a o.id none
    | (false, db) => (false, { s with db := db })
  else (o.ret, { s with db := db })

/-- What `wsignal_selection` does with a non-transient event once the transaction is open,
up to its trailing trim. -/
def storeSelection (a : Ambient) (name : SelectionName) (written : ℕ → Option Bytes)
    (mimeTypes : List CString) (s : State) : State :=
  match selectionTransaction s.config a written mimeTypes s.db with
  | (o, db) =>
    match s.finishTransaction a o db with
    | (true, s) =>
      let s := if o.moved then { s with ipc := ipcEventEntryMove o.id o.oldPos 0 s.ipc }
        else
          let s := s.saveAttributes a.sql o
          { s with ipc := ipcEventEntryAdd o.id s.ipc }
      s.set a.sql (some name) o.id
    | (false, s) =>
      -- a duplicate that was to be moved counts as ignored, even if the move failed
      if !(o.ignore || o.moved) then { s with id := -1 } else s

/-- The transient branch. -/
def storeTransient (a : Ambient) (name : SelectionName) (written : ℕ → Option Bytes)
    (mimeTypes : List CString) (s : State) : State :=
  let s := { s with id := -1 }
  match receiveAll s.config written 0 mimeTypes with
  | none => s
  | some data => { s with transient := data }.set a.sql (some name) 0

def wsignalSelection (a : Ambient) (name : SelectionName) (written : ℕ → Option Bytes)
    (mimeTypes : List CString) (transient : Bool) (s : State) : State :=
  if mimeTypes.length = 0 then s
  else
    let s := s.clearTransient
    if transient then s.storeTransient a name written mimeTypes
    else
      match databaseDoTransaction (a.sql .beginImmediate 0) .immediate s.db with
      | (false, _) => s
      | (true, db) => ({ s with db := db }.storeSelection a name written mimeTypes).trim a

end State

end Swayclip
