import Swayclip.Daemon.Step
import Swayclip.Database.Connection

/-! # What the helpers of the daemon change

For each helper, the fields it writes and what it writes there; the others stay. The
constraints of the schema follow for every reachable state, whatever fails.
-/

namespace Swayclip
namespace State

section Set
variable (sql : Sql) (ignore : Option SelectionName) (id : ℤ) (s : State)

@[simp] theorem set_id : (s.set sql ignore id).id = id := by
  simp only [set]
  split <;> split <;> split <;> rfl

@[simp] theorem set_config : (s.set sql ignore id).config = s.config := by
  simp only [set]
  split <;> split <;> split <;> rfl

@[simp] theorem set_disk : (s.set sql ignore id).disk = s.disk := by
  simp only [set]
  split <;> split <;> split <;> rfl

@[simp] theorem set_activeToplevel :
    (s.set sql ignore id).activeToplevel = s.activeToplevel := by
  simp only [set]
  split <;> split <;> split <;> rfl

@[simp] theorem set_transient : (s.set sql ignore id).transient = s.transient := by
  simp only [set]
  split <;> split <;> split <;> rfl

theorem set_cleared : (s.set sql ignore id).cleared = (id = -1 || s.cleared) := by
  by_cases h : id = -1 <;> simp only [set, h, if_true, if_false] <;> split <;> simp [waylandSet] <;>
    split <;> rfl

theorem set_db : (s.set sql ignore id).db =
    if id > 0 then (databaseSaveSetting (sql .saveSetting 0) id s.db).2 else s.db := by
  simp only [set]
  split <;> split <;> split <;> rfl

theorem set_ipc : (s.set sql ignore id).ipc =
    (if id > 0 then ipcEventEntryState id true else fun ipc => ipc)
      ((if s.id > 0 then ipcEventEntryState s.id false else fun ipc => ipc) s.ipc) := by
  simp only [set]
  split <;> split <;> split <;> rfl

/-- The selections are set from the state that `set` leaves behind. -/
theorem set_seats : (s.set sql ignore id).seats =
    Swayclip.waylandSet ((s.set sql ignore id).setCallback sql) ignore s.seats := by
  simp only [set]
  split <;> split <;> split <;> rfl

theorem set_sameRows : (s.set sql ignore id).db.tables.SameRows s.db.tables := by
  rw [set_db]
  split
  · exact databaseSaveSetting_sameRows ..
  · exact Tables.SameRows.refl _

@[simp] theorem set_saved : (s.set sql ignore id).db.saved = s.db.saved := by
  rw [set_db]
  split <;> simp

theorem set_wf (h : s.db.WF) : (s.set sql ignore id).db.WF := by
  rw [set_db]
  split
  · exact databaseSaveSetting_wf h _ _
  · exact h

end Set

/-! ## Finding a seat -/

section Seats
variable {s : State} {n : ℕ}

theorem findSeat_globalName {seat : Seat} (h : s.findSeat n = some seat) : seat.globalName = n := by
  simpa using List.find?_some h

theorem findSeat_mem {seat : Seat} (h : s.findSeat n = some seat) : seat ∈ s.seats :=
  List.mem_of_find?_eq_some h

/-- Rewriting the seats without renaming them. -/
theorem find?_map_seats {f : Seat → Seat} (hf : ∀ seat, (f seat).globalName = seat.globalName)
    (seats : List Seat) (n : ℕ) :
    (seats.map f).find? (fun seat => seat.globalName = n) =
      (seats.find? (fun seat => seat.globalName = n)).map f := by
  rw [List.find?_map]
  congr 2
  funext seat
  simp [hf]

theorem findSeat_putSeat {old seat : Seat} (h : s.findSeat n = some old)
    (hname : seat.globalName = n) : (s.putSeat seat).findSeat n = some seat := by
  rw [findSeat, putSeat, find?_map_seats (fun x => by split <;> simp_all), ← findSeat,
    h, Option.map_some, if_pos (by rw [findSeat_globalName h, hname])]

theorem findSeat_putSeat_of_ne {seat : Seat} (hname : seat.globalName ≠ n) :
    (s.putSeat seat).findSeat n = s.findSeat n := by
  rw [findSeat, putSeat, find?_map_seats (fun x => by split <;> simp_all), ← findSeat]
  cases h : s.findSeat n with
  | none => rfl
  | some old =>
    rw [Option.map_some, if_neg (by rw [findSeat_globalName h]; exact Ne.symm hname)]

theorem findSeat_putSeat_eq {old seat : Seat} (h : s.findSeat n = some old)
    (hname : seat.globalName = n) (m : ℕ) :
    (s.putSeat seat).findSeat m = if m = n then some seat else s.findSeat m := by
  split
  · rename_i hm
    rw [hm, findSeat_putSeat h hname]
  · rename_i hm
    exact findSeat_putSeat_of_ne (by rw [hname]; exact Ne.symm hm)

theorem findSeat_removeSeat (m : ℕ) :
    ({ s with seats := s.seats.filter (fun seat => seat.globalName ≠ m) } : State).findSeat n =
      if n = m then none else s.findSeat n := by
  rw [findSeat, List.find?_filter]
  split
  · rename_i hnm
    rw [List.find?_eq_none]
    simp [hnm]
  · rename_i hnm
    rw [findSeat]
    congr 1
    funext seat
    by_cases hseat : seat.globalName = n <;> simp [hseat, hnm]

theorem findSeat_clearMimeTypes (m : ℕ) :
    (s.clearMimeTypes m).findSeat n = (s.findSeat n).map (fun seat =>
      if seat.globalName = m then seatClearMimeTypes seat else seat) := by
  rw [findSeat, clearMimeTypes, find?_map_seats (fun x => by split <;> rfl), ← findSeat]

end Seats

end State
end Swayclip
