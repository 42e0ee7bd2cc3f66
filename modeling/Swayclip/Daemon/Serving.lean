import Swayclip.Daemon.Reachability

/-! # What a request does

When no database call fails, a request is answered with a reply alone or with one change:
an entry is made current, deleted or updated, the history is cleared, or the client changes
its own subscription or hold.
-/

namespace Swayclip
open Tables

/-- The message reports an event rather than a reply. -/
def Message.isEvent : Message → Bool
  | .event _ => true
  | _ => false

namespace State

/-- The state after the rows of the entries have been deleted. -/
def withoutEntries (ids : List ℤ) (s : State) : State :=
  { s with db := { s.db with tables := s.db.tables.delEntries ids } }

/-- How a request is served when no database call fails. -/
inductive Served (a : Ambient) (fd : ℕ) (s : State) : Request → State → Prop
  | replied {req : Request} (msg : Message) (hmsg : msg.isEvent = false) :
      Served a fd s req (s.onClient fd (Client.ipcCtWriteMsg msg))
  | subscribed {args : List EventArg} {flags : List EventFlag}
      (hflags : subscribeEvents args [] = .ok flags) :
      Served a fd s (.subscribe (some args))
        ((s.onClient fd (Client.ipcClientSetEvents flags)).sendSuccess fd)
  | held (n : ℤ) : Served a fd s (.holdRequests (some n))
      ((s.onClient fd (Client.ipcClientAddHold n)).sendSuccess fd)
  | madeCurrent {id : ℤ} (hid : id = -1 ∨ s.db.tables.idExists id = true) :
      Served a fd s (.setClipboard (some id))
        (((s.set a.sql none id).update a id none).2.sendSuccess fd)
  | deleted {id : ℤ} (hid : id ≠ -1) (hexists : s.db.tables.idExists id = true) :
      Served a fd s (.deleteEntry (some id)) ((s.withoutEntries [id]).entryDeleted a fd id)
  | cleared : Served a fd s (.deleteEntry (some (-1)))
      ((s.withoutEntries (s.db.tables.entries.map Entry.id)).entryDeleted a fd (-1))
  | pinned {id : ℤ} {pin : PinArg} (flag : Bool) (hexists : s.db.tables.idExists id = true) :
      Served a fd s (.pinEntry (some id) (some pin))
        ((s.update a id (some flag)).2.sendSuccess fd)

section Quiet
variable {a : Ambient} (hsql : a.sql = allOk)
include hsql

theorem update_eq (id : ℤ) (pinned : Option Bool) (s : State) :
    s.update a id pinned = (true, { s with
      db := { s.db with tables := s.db.tables.updateEntry a.now pinned id }
      ipc := ipcEventEntryUpdate id (some a.now) pinned s.ipc }) := by
  simp [update, databaseUpdateEntry, hsql]

theorem serveDeleteEntry_served (fd : ℕ) (id : Option ℤ) (s : State) :
    Served a fd s (.deleteEntry id) (s.serveDeleteEntry a fd id) := by
  cases id with
  | none => exact .replied _ rfl
  | some id =>
    simp only [serveDeleteEntry, hsql, allOk_apply, databaseIdExists, Bool.true_and]
    split
    · rename_i hid
      subst hid
      exact .cleared
    · rename_i hid
      split
      · exact .replied _ rfl
      · rename_i hexists
        exact .deleted hid (by simpa using hexists)

theorem requestCallback_served (fd : ℕ) (req : Request) (s : State) :
    Served a fd s req (s.requestCallback a fd req) := by
  cases req with
  | subscribe events =>
    cases events with
    | none => exact .replied _ rfl
    | some args =>
      simp only [requestCallback, serveSubscribe]
      split
      · exact .replied _ rfl
      · rename_i flags hflags
        exact .subscribed hflags
  | getHistoryLength =>
    simp only [requestCallback, serveGetHistoryLength]
    split <;> exact .replied _ rfl
  | getHistory start n =>
    simp only [requestCallback, serveGetHistory]
    split
    · split <;> exact .replied _ rfl
    · exact .replied _ rfl
  | getData id mimeType =>
    simp only [requestCallback, serveGetData]
    split
    · split
      · exact .replied _ rfl
      · split <;> exact .replied _ rfl
    · exact .replied _ rfl
  | setClipboard id =>
    cases id with
    | none => exact .replied _ rfl
    | some id =>
      simp only [requestCallback, serveSetClipboard, hsql, allOk_apply, databaseIdExists,
        Bool.true_and]
      split
      · exact .replied _ rfl
      · rename_i hid
        have hcurrent : id = -1 ∨ s.db.tables.idExists id = true := by
          by_cases h : id = -1
          · exact Or.inl h
          · exact Or.inr (by simpa [h] using hid)
        have hserved := @Served.madeCurrent a fd s id hcurrent
        rw [hsql] at hserved
        rw [update_eq hsql] at hserved ⊢
        exact hserved
  | deleteEntry id => exact serveDeleteEntry_served hsql fd id s
  | pinEntry id pin =>
    cases id with
    | none => exact .replied _ rfl
    | some id =>
      cases pin with
      | none => exact .replied _ rfl
      | some pin =>
        simp only [requestCallback, servePinEntry, hsql, allOk_apply, databaseIdExists,
          Bool.true_and]
        split
        · exact .replied _ rfl
        · rename_i hexists
          split
          · exact .replied _ rfl
          · rename_i flag _
            have hserved := @Served.pinned a fd s id pin flag (by simpa using hexists)
            rw [update_eq hsql] at hserved ⊢
            exact hserved
  | getCurrent => exact .replied _ rfl
  | holdRequests n =>
    cases n with
    | none => exact .replied _ rfl
    | some n =>
      simp only [requestCallback, serveHoldRequests]
      split
      · exact .replied _ rfl
      · exact .held n
  | invalid => exact .replied _ rfl

end Quiet

end State

end Swayclip
