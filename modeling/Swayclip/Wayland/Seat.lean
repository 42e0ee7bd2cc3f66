import Mathlib.Data.Int.Notation
import Swayclip.Wayland.Filter

/-! # Seats and their selections

Each seat has a regular and a primary selection. A selection remembers whether the
current offer is non-NULL, the source the daemon owns there, if any, and whether a null
timer is armed.
-/

namespace Swayclip

inductive SelectionType where
  | regular
  | primary
deriving DecidableEq

/-- A data source of the daemon with the types it advertised. The code keeps only the
proxy; `entry` and `held` record, for statements, the id the source was created for and
what a send on it would have been answered with at that moment. -/
structure Source where
  mimeTypes : List CString
  entry : ℤ
  held : CString → Option Bytes

/-- `struct selection`; the offer and the timer are kept as non-NULL and as armed. `created` counts
the sources that were created for it, which tells the one that it has from those before it, even if
they offer the same. -/
structure Selection where
  enabled : Bool
  extDataOffer : Bool
  extDataSource : Option Source
  nullTimer : Bool
  created : ℕ

/-- `struct seat`; a seat is enabled once it has a data device. -/
structure Seat extends Collected where
  globalName : ℕ
  enabled : Bool
  selRegular : Selection
  selPrimary : Selection

namespace Seat

def sel (seat : Seat) : SelectionType → Selection
  | .regular => seat.selRegular
  | .primary => seat.selPrimary

def setSel (seat : Seat) (type : SelectionType) (sel : Selection) : Seat :=
  match type with
  | .regular => { seat with selRegular := sel }
  | .primary => { seat with selPrimary := sel }

@[simp] theorem sel_setSel (seat : Seat) (type : SelectionType) (sel : Selection) :
    (seat.setSel type sel).sel type = sel := by
  cases type <;> rfl

theorem sel_setSel_of_ne (seat : Seat) {type other : SelectionType} (sel : Selection)
    (h : other ≠ type) : (seat.setSel type sel).sel other = seat.sel other := by
  cases type <;> cases other <;> first | rfl | exact absurd rfl h

@[simp] theorem setSel_globalName (seat : Seat) (type : SelectionType) (sel : Selection) :
    (seat.setSel type sel).globalName = seat.globalName := by
  cases type <;> rfl

@[simp] theorem setSel_enabled (seat : Seat) (type : SelectionType) (sel : Selection) :
    (seat.setSel type sel).enabled = seat.enabled := by
  cases type <;> rfl

@[simp] theorem setSel_toCollected (seat : Seat) (type : SelectionType) (sel : Selection) :
    (seat.setSel type sel).toCollected = seat.toCollected := by
  cases type <;> rfl

/-- The seat without the sources that the daemon owns on it. -/
def forgetSources (seat : Seat) : Seat :=
  { seat with
    selRegular := { seat.selRegular with extDataSource := none, created := 0 }
    selPrimary := { seat.selPrimary with extDataSource := none, created := 0 } }

theorem sel_forgetSources (seat : Seat) (type : SelectionType) :
    seat.forgetSources.sel type = { seat.sel type with extDataSource := none, created := 0 } := by
  cases type <;> rfl

end Seat

/-! ## One selection -/

/-- What `wsignal_set` hands back: a source, and whether to clear. -/
abbrev SetResult := Option Source × Bool

/-- The source that the selection has is destroyed, even if the new one offers the same. -/
def selectionSet (result : SetResult) (sel : Selection) : Selection :=
  if !result.2 && result.1.isNone then sel
  else { sel with
    extDataSource := result.1
    created := if result.1.isSome then sel.created + 1 else sel.created }

def dataSourceEventCancelled (current : Bool) (sel : Selection) : Selection :=
  if current then { sel with extDataSource := none } else sel

/-- `ok` says that the timer fd was readable; otherwise only the timer goes. -/
def nullTimerCallback (ok : Bool) (result : SetResult) (sel : Selection) : Selection :=
  let sel := if ok && !sel.extDataOffer then selectionSet result sel else sel
  { sel with nullTimer := false }

/-- The flag says whether the selection callback is invoked. -/
def selectionEvent (blocked offer canSet timerOk : Bool) (sel : Selection) : Bool × Selection :=
  if !sel.enabled then (false, sel)
  else if sel.extDataSource.isSome || blocked then
    (false, { sel with extDataOffer := false })
  else
    let sel := { sel with extDataOffer := offer }
    if !offer then
      if sel.nullTimer || !canSet then (false, sel)
      else (false, { sel with nullTimer := timerOk })
    else (true, sel)

/-- The callback is invoked for a new offer that neither is the daemon's own nor is blocked. -/
theorem selectionEvent_fst (blocked offer canSet timerOk : Bool) (sel : Selection) :
    (selectionEvent blocked offer canSet timerOk sel).1 =
      (sel.enabled && sel.extDataSource.isNone && !blocked && offer) := by
  unfold selectionEvent
  cases sel.enabled <;> cases sel.extDataSource <;> cases blocked <;> cases offer <;> simp
  split <;> rfl

theorem selectionEvent_source (blocked offer canSet timerOk : Bool) (sel : Selection) :
    (selectionEvent blocked offer canSet timerOk sel).2.extDataSource = sel.extDataSource ∧
      (selectionEvent blocked offer canSet timerOk sel).2.enabled = sel.enabled := by
  simp only [selectionEvent]
  split
  · exact ⟨rfl, rfl⟩
  · split
    · exact ⟨rfl, rfl⟩
    · split
      · split <;> exact ⟨rfl, rfl⟩
      · exact ⟨rfl, rfl⟩

def seatClearMimeTypes (seat : Seat) : Seat := { seat with mimeTypes := [] }

/-! ## All selections -/

/-- A selection is named by the global name of its seat and its type. -/
abbrev SelectionName := ℕ × SelectionType

/-- One of the two tests of `seat_set`. The callback runs once for each selection that is
set, so its result may depend on it. -/
def Seat.setUnless (callback : SelectionName → SetResult) (ignore : Option SelectionName)
    (type : SelectionType) (seat : Seat) : Seat :=
  if (seat.sel type).enabled ∧ ignore ≠ some (seat.globalName, type) then
    seat.setSel type (selectionSet (callback (seat.globalName, type)) (seat.sel type))
  else seat

def seatSet (callback : SelectionName → SetResult) (ignore : Option SelectionName) (seat : Seat) :
    Seat :=
  (seat.setUnless callback ignore .regular).setUnless callback ignore .primary

/-- Sync all enabled selections, except `ignore`. -/
def waylandSet (callback : SelectionName → SetResult) (ignore : Option SelectionName)
    (seats : List Seat) : List Seat :=
  seats.map (fun seat => if seat.enabled then seatSet callback ignore seat else seat)

section Sync
variable (callback : SelectionName → SetResult) (ignore : Option SelectionName) (seat : Seat)

@[simp] theorem Seat.setUnless_globalName (type : SelectionType) :
    (seat.setUnless callback ignore type).globalName = seat.globalName := by
  unfold Seat.setUnless
  split <;> simp

@[simp] theorem Seat.setUnless_enabled (type : SelectionType) :
    (seat.setUnless callback ignore type).enabled = seat.enabled := by
  unfold Seat.setUnless
  split <;> simp

@[simp] theorem Seat.setUnless_toCollected (type : SelectionType) :
    (seat.setUnless callback ignore type).toCollected = seat.toCollected := by
  unfold Seat.setUnless
  split <;> simp

theorem Seat.setUnless_sel (type : SelectionType) :
    (seat.setUnless callback ignore type).sel type =
      if (seat.sel type).enabled ∧ ignore ≠ some (seat.globalName, type) then
        selectionSet (callback (seat.globalName, type)) (seat.sel type)
      else seat.sel type := by
  unfold Seat.setUnless
  split <;> simp

theorem Seat.setUnless_sel_of_ne {type other : SelectionType} (h : other ≠ type) :
    (seat.setUnless callback ignore type).sel other = seat.sel other := by
  unfold Seat.setUnless
  split
  · exact seat.sel_setSel_of_ne _ h
  · rfl

@[simp] theorem seatSet_globalName :
    (seatSet callback ignore seat).globalName = seat.globalName := by
  simp [seatSet]

@[simp] theorem seatSet_enabled : (seatSet callback ignore seat).enabled = seat.enabled := by
  simp [seatSet]

@[simp] theorem seatSet_toCollected :
    (seatSet callback ignore seat).toCollected = seat.toCollected := by
  simp [seatSet]

/-- What `seat_set` does to one selection. -/
theorem seatSet_sel (type : SelectionType) :
    (seatSet callback ignore seat).sel type =
      if (seat.sel type).enabled ∧ ignore ≠ some (seat.globalName, type) then
        selectionSet (callback (seat.globalName, type)) (seat.sel type)
      else seat.sel type := by
  cases type with
  | regular => rw [seatSet, Seat.setUnless_sel_of_ne _ _ _ (by decide), Seat.setUnless_sel]
  | primary =>
    rw [seatSet, Seat.setUnless_sel, Seat.setUnless_sel_of_ne _ _ _ (by decide),
      Seat.setUnless_globalName]

/-- Setting changes nothing but sources. -/
theorem seatSet_forgetSources :
    (seatSet callback ignore seat).forgetSources = seat.forgetSources := by
  have hset : ∀ result (sel : Selection),
      { selectionSet result sel with extDataSource := none, created := 0 } =
        { sel with extDataSource := none, created := 0 } := by
    intro result sel
    unfold selectionSet
    split <;> rfl
  have hone : ∀ type (seat : Seat),
      (seat.setUnless callback ignore type).forgetSources = seat.forgetSources := by
    intro type seat
    unfold Seat.setUnless
    split
    · cases type <;> simp only [Seat.setSel, Seat.forgetSources, Seat.sel, hset]
    · rfl
  rw [seatSet, hone, hone]

end Sync

end Swayclip
