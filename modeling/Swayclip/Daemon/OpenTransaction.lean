import Swayclip.Daemon.Outcomes

/-! # A transaction that cannot be ended

The result of `COMMIT` and of `ROLLBACK` is not looked at. If the statement fails, the transaction
of an event stays open, and the connection goes on showing the row that the event has inserted.
-/

namespace Swayclip
open Tables

/-- No row comes or goes, and the transaction stays as it is. -/
structure Database.SameIds (db db' : Database) : Prop where
  saved : db'.saved = db.saved
  ids : db'.tables.entries.map Entry.id = db.tables.entries.map Entry.id

namespace Database.SameIds
variable {db db' db'' : Database}

theorem refl (db : Database) : SameIds db db := ⟨rfl, rfl⟩

theorem trans (h : SameIds db db') (hmore : SameIds db' db'') : SameIds db db'' :=
  ⟨hmore.saved.trans h.saved, hmore.ids.trans h.ids⟩

theorem idExists (h : SameIds db db') (id : ℤ) :
    db'.tables.idExists id = db.tables.idExists id := by
  rw [Bool.eq_iff_iff, idExists_iff_mem, idExists_iff_mem, h.ids]

theorem of_map {f : Entry → Entry} (hsaved : db'.saved = db.saved)
    (hentries : db'.tables.entries = db.tables.entries.map f) (hid : ∀ e, (f e).id = e.id) :
    SameIds db db' := by
  refine ⟨hsaved, ?_⟩
  rw [hentries, List.map_map]
  exact List.map_congr_left fun e _ => hid e

theorem exec {f : Tables → Option Tables} (hf : ∀ t, f db.tables = some t →
    t.entries.map Entry.id = db.tables.entries.map Entry.id) (ok : Bool) :
    SameIds db (db.exec ok f).2 := by
  unfold Database.exec
  split
  · rename_i t ht
    exact ⟨rfl, hf t ht⟩
  · exact refl db

end Database.SameIds

open Database (SameIds)

namespace State

section Open
variable {a : Ambient} {written : ℕ → Option Bytes}
  {mimeTypes : List CString} {s : State} {o : Outcome} {db : Database}

end Open

end State

end Swayclip
