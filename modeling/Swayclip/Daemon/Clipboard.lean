import Swayclip.Daemon.Exchange
import Swayclip.Daemon.NullTimer
import Swayclip.Daemon.Serving
import Swayclip.Daemon.Transitions

/-! # The clipboard that the daemon keeps

What the history is for, without rows, digests and sort indices: entries that have data, and one
of which may be current. Each request of a client does with it what its name says, and nothing else
reaches a client that has not subscribed to anything.
-/

namespace Swayclip
open Library Library.Runs Tables

/-- The clipboard as its user sees it: the entries with whether they are pinned, the one that was
copied last first; the current one, or -1; the data that an entry has for a type. -/
structure Clipboard where
  history : List (ℤ × Bool)
  current : ℤ
  data : ℤ → CString → Option Bytes

namespace Clipboard

def Has (c : Clipboard) (id : ℤ) : Prop := id ∈ c.history.map Prod.fst

instance (c : Clipboard) (id : ℤ) : Decidable (c.Has id) :=
  inferInstanceAs (Decidable (id ∈ c.history.map Prod.fst))

def select (id : ℤ) (c : Clipboard) : Clipboard := { c with current := id }

/-- A current entry that is removed leaves the clipboard cleared. -/
def remove (id : ℤ) (c : Clipboard) : Clipboard where
  history := c.history.filter fun row => row.1 ≠ id
  current := if c.current = id then -1 else c.current
  data := fun i mimeType => if i = id then none else c.data i mimeType

def empty : Clipboard := ⟨[], -1, fun _ _ => none⟩

def setPinned (id : ℤ) (f : Bool → Bool) (c : Clipboard) : Clipboard :=
  { c with history := c.history.map fun row => if row.1 = id then (row.1, f row.2) else row }

/-- What a word does to the flag of an entry. -/
def pinned : PinArg → Bool → Bool
  | .yes, _ => true
  | .no, _ => false
  | .toggle, old => !old
  | .other, old => old

end Clipboard

/-! ## The clipboard of a state -/

namespace State

/-- What the user of the clipboard sees. -/
def clipboard (s : State) : Clipboard := ⟨s.db.tables.view, s.id, s.db.tables.getData⟩

theorem has_iff {s : State} {id : ℤ} :
    s.clipboard.Has id ↔ s.db.tables.idExists id = true := by
  rw [idExists_iff, ← mem_view_fst]
  rfl

theorem idPos_of_has {s : State} (h : s.WF) {id : ℤ} (hid : s.clipboard.Has id) : 0 < id := by
  obtain ⟨e, he, rfl⟩ := idExists_iff.mp (has_iff.mp hid)
  exact h.db.tables.idPos e he

theorem length_history (s : State) : s.clipboard.history.length = s.db.tables.entries.length := by
  change (s.db.tables.history.map _).length = _
  rw [List.length_map]
  exact (Ranking.sortDesc_perm _ _).length_eq

/-- Rows that are the same show the same clipboard. -/
theorem clipboard_of_sameRows {s s' : State} (h : s'.db.tables.SameRows s.db.tables) :
    s'.clipboard = { s.clipboard with current := s'.id } := by
  have hdata : s'.db.tables.getData = s.db.tables.getData := by
    funext id mimeType
    rw [getData, getData, h.mimeTypes]
    congr 1
    funext d
    rw [dataOf, dataOf, h.data]
  rw [clipboard, h.view, hdata]
  rfl

theorem getData_of_not_has {s : State} (h : s.WF) {id : ℤ} (hid : ¬ s.clipboard.Has id)
    (mimeType : CString) : s.db.tables.getData id mimeType = none := by
  have hnone : s.db.tables.mimeTypes.find? (fun m => m.id = id ∧ m.mimeType = mimeType) = none := by
    rw [List.find?_eq_none]
    intro m hm hmatch
    obtain ⟨e, he, heq⟩ := h.db.tables.mimeEntry m hm
    rw [has_iff, idExists_iff] at hid
    exact hid ⟨e, he, heq.trans (of_decide_eq_true hmatch).1⟩
  rw [getData, hnone]
  rfl

/-- The entries that are deleted are gone with their data. -/
theorem getData_deleted (s : State) (ids : List ℤ) {id : ℤ} (hid : id ∈ ids)
    (mimeType : CString) : (s.db.tables.delEntries ids).getData id mimeType = none := by
  have hnone : (s.db.tables.delEntries ids).mimeTypes.find?
      (fun m => m.id = id ∧ m.mimeType = mimeType) = none := by
    rw [List.find?_eq_none]
    intro m hm hmatch
    rw [delEntries_eq] at hm
    have hkept := (List.mem_filter.mp hm).2
    rw [(of_decide_eq_true hmatch).1] at hkept
    simp [hid] at hkept
  rw [getData, hnone]
  rfl

theorem clipboard_update {a : Ambient} (hsql : a.sql = allOk) (s : State) (id : ℤ)
    (pinned : Option Bool) : (s.update a id pinned).2.clipboard = { s.clipboard with
      history := s.clipboard.history.map fun row =>
        if row.1 = id then (row.1, pinned.getD row.2) else row } := by
  rw [update_eq hsql, clipboard, view_updateEntry]
  rfl

theorem clipboard_refresh {a : Ambient} (hsql : a.sql = allOk) (s : State) (id : ℤ) :
    (s.update a id none).2.clipboard = s.clipboard := by
  have hsame : ∀ row : ℤ × Bool, (if row.1 = id then (row.1, none.getD row.2) else row) = row :=
    fun row => ite_self row
  rw [clipboard_update hsql]
  simp only [hsame, List.map_id']

theorem clipboard_set (sql : Sql) (ignore : Option SelectionName) (id : ℤ) (s : State) :
    (s.set sql ignore id).clipboard = s.clipboard.select id := by
  rw [clipboard_of_sameRows (set_sameRows sql ignore id s), set_id]
  rfl

theorem clipboard_delEntry {s : State} (h : s.WF) (id : ℤ) :
    (s.withoutEntries [id]).clipboard = (s.clipboard.remove id).select s.id := by
  have hview : (s.db.tables.delEntries [id]).view =
      s.db.tables.view.filter fun row => row.1 ≠ id := by
    rw [view_delEntries h.db.tables]
    exact List.filter_congr fun row _ => by simp only [List.mem_singleton]
  have hdata : (s.db.tables.delEntries [id]).getData = fun i mimeType =>
      if i = id then none else s.db.tables.getData i mimeType := by
    funext i mimeType
    split
    · rename_i hi
      exact getData_deleted s [id] (List.mem_singleton.mpr hi) mimeType
    · rename_i hi
      exact getData_delEntries (fun hmem => hi (List.mem_singleton.mp hmem)) mimeType
  rw [clipboard]
  simp only [withoutEntries, hview, hdata]
  rfl

theorem clipboard_clear {s : State} (h : s.WF) :
    (s.withoutEntries (s.db.tables.entries.map Entry.id)).clipboard =
      Clipboard.empty.select s.id := by
  have hdata : (s.db.tables.delEntries (s.db.tables.entries.map Entry.id)).getData =
      fun _ _ => none := by
    funext i mimeType
    by_cases hi : i ∈ s.db.tables.entries.map Entry.id
    · exact getData_deleted s _ hi mimeType
    · rw [getData_delEntries hi]
      refine getData_of_not_has h (fun hhas => hi ?_) mimeType
      obtain ⟨e, he, rfl⟩ := idExists_iff.mp (has_iff.mp hhas)
      exact List.mem_map_of_mem he
  have hview : (s.db.tables.delEntries (s.db.tables.entries.map Entry.id)).view = [] :=
    view_clear h.db.tables
  rw [clipboard]
  simp only [withoutEntries, hview, hdata]
  rfl

/-- What is left once the current entry is reset. -/
theorem clipboard_entryDeleted (a : Ambient) (fd : ℕ) (id : ℤ) (s : State) :
    (s.entryDeleted a fd id).clipboard =
      if id = -1 ∨ id = s.id then s.clipboard.select (-1) else s.clipboard := by
  unfold entryDeleted
  split
  · exact clipboard_set a.sql none (-1) _
  · rfl

end State

/-! ## A client without subscriptions -/

/-- The step leaves the client alone: it stays connected, and sends nothing. -/
structure Input.Spares (fd : ℕ) (i : Input) : Prop extends i.Keeps fd where
  silent : ∀ msg, i.event ≠ .message fd msg

namespace State

section Unsubscribed
variable {fd : ℕ} {s : State} {client : Client} (hevents : client.events = [])
include hevents

theorem emit_unsubscribed (msg : EventMsg) : client.emit msg = client := by
  rw [Client.emit, hevents, if_neg List.not_mem_nil]

theorem findClient_emit_unsubscribed (hclient : s.findClient fd = some client) (msg : EventMsg) :
    ({ s with ipc := ipcEvent msg s.ipc } : State).findClient fd = some client := by
  rw [findClient_emit, hclient, Option.map_some, emit_unsubscribed hevents]

/-- Requests of other clients do not reach it. -/
theorem receiveAll_unsubscribed {fd' : ℕ} (hfd : client.fd ≠ fd') (outputs : List Output) :
    client.receiveAll fd' outputs = client := by
  induction outputs with
  | nil => rfl
  | cons output outputs ih =>
    have hone : client.receive fd' output = client := by
      cases output with
      | reply | subscribe | hold => exact if_neg hfd
      | emit msg => exact emit_unsubscribed hevents msg
    rw [Client.receiveAll_cons, hone, ih]

theorem Tells.unsubscribed {fd' : ℕ} {outputs : List Output} {f : State → State}
    (h : Tells fd' outputs f s) (hfd : fd' ≠ fd) (hclient : s.findClient fd = some client) :
    (f s).findClient fd = some client := by
  rw [State.findClient, h.ipc, find?_map_clients fun _ => (Client.receiveAll_keeps fd' _).1]
  refine (congrArg (Option.map _) hclient).trans (congrArg some ?_)
  refine receiveAll_unsubscribed hevents ?_ outputs
  rw [findClient_fd hclient]
  exact hfd.symm

theorem findClient_set (hclient : s.findClient fd = some client) (sql : Sql)
    (ignore : Option SelectionName) (id : ℤ) :
    (s.set sql ignore id).findClient fd = some client :=
  (tells_set (fd + 1) sql ignore id s).unsubscribed hevents (Nat.succ_ne_self fd) hclient

theorem findClient_update {a : Ambient} (hsql : a.sql = allOk)
    (hclient : s.findClient fd = some client) (id : ℤ) (pinned : Option Bool) :
    (s.update a id pinned).2.findClient fd = some client := by
  rw [update_eq hsql]
  exact findClient_emit_unsubscribed hevents hclient _

end Unsubscribed

/-- What happens elsewhere does not reach a client without subscriptions. -/
theorem step_unsubscribed {fd : ℕ} {s : State} {i : Input} {client : Client} (hspares : i.Spares fd)
    (hclient : s.findClient fd = some client) (hevents : client.events = []) :
    (step s i).findClient fd = some client := by
  have htransition := step_transition s i
  generalize step s i = s' at htransition ⊢
  cases htransition with
  | quiet hevent h hclients =>
    cases hclients fd with
    | same hsame => exact hsame.trans hclient
    | connected _ hold => exact absurd (hclient.symm.trans hold) (Option.some_ne_none client)
    | gone hgone => exact absurd hgone hspares.connected
  | restarted hevent => exact absurd hevent (hspares.session _)
  | delivered hevent h =>
    apply wsignalSelection_preserve (P := fun x => x.findClient fd = some client) (i.ambient 0)
    · exact fun _ _ hx => hx
    · intro x y hpart hx
      cases hpart with
      | database | reset => exact hx
      | emit msg => exact findClient_emit_unsubscribed hevents hx msg
      | set name id => exact findClient_set hevents hx _ _ id
    · exact hclient
  | @served fd' msg other hevent hother =>
    have hfd : other.fd ≠ fd := by
      rintro rfl
      obtain rfl := findClient_fd hother
      exact hspares.silent msg hevent
    apply messageCallback_requests (P := fun x => x.findClient fd = some client) i.ambient other _ _
      msg hclient
    · intro f hf x hx
      exact (findClient_onClient_of_ne hf hfd x).trans hx
    · intro n req x hx
      obtain ⟨outputs, htells, -⟩ := requestCallback_replies (i.ambient n) other.fd req x
      exact htells.unsubscribed hevents hfd hx

/-! ## What a request does -/

/-- How a request is served: the reply, which is all that a client without subscriptions is sent,
and what becomes of the clipboard. -/
structure Serves (a : Ambient) (req : Request) (s : State) (msg : Message) (c : Clipboard) :
    Prop where
  reply : ∀ fd client, s.findClient fd = some client → client.events = [] →
    (s.requestCallback a fd req).findClient fd = some (client.ipcCtWriteMsg msg)
  clipboard : ∀ fd, (s.requestCallback a fd req).clipboard = c

section Serves
variable {a : Ambient} {s : State}

theorem findClient_reply {fd : ℕ} {client : Client} (hclient : s.findClient fd = some client)
    (msg : Message) : (s.onClient fd (Client.ipcCtWriteMsg msg)).findClient fd =
      some (client.ipcCtWriteMsg msg) :=
  findClient_onClient_self (fun _ => rfl) hclient

/-- The request is only answered. -/
theorem serves_of_reply {req : Request} {msg : Message}
    (h : ∀ fd, s.requestCallback a fd req = s.onClient fd (Client.ipcCtWriteMsg msg)) :
    Serves a req s msg s.clipboard := by
  refine ⟨fun fd client hclient _ => ?_, fun fd => ?_⟩
  · rw [h]
    exact findClient_reply hclient msg
  · rw [h]
    rfl

theorem serves_getCurrent : Serves a .getCurrent s (.current s.clipboard.current) s.clipboard :=
  serves_of_reply fun _ => rfl

theorem serves_getHistoryLength (hsql : a.sql = allOk) :
    Serves a .getHistoryLength s (.size s.clipboard.history.length) s.clipboard := by
  refine serves_of_reply fun fd => ?_
  simp only [requestCallback, serveGetHistoryLength, databaseGetHistorySize, hsql, allOk_apply,
    if_true, length_history]
  rfl

/-- Data that is not there is reported like a call that fails. For data that is there, the name of
the type has to be short enough for a descriptor. -/
def dataReply (mimeType : CString) : Option Bytes → Message
  | none => .error (ipcDbError.take 255)
  | some data =>
    if mimeType.bytes.length > memfdNameMax then
      .error (ascii "Error creating file descriptor: Invalid argument".toList)
    else .success (some data)

theorem serves_getData (hsql : a.sql = allOk) (hmemfd : a.memfd = .ok) (id : ℤ)
    (mimeType : CString) :
    Serves a (.getData (some id) (some mimeType)) s
      (dataReply mimeType (s.clipboard.data id mimeType)) s.clipboard := by
  have hdata : databaseGetData (a.sql .getDataRowid 0) id mimeType s.db =
      s.clipboard.data id mimeType := by
    rw [hsql]
    rfl
  cases h : s.clipboard.data id mimeType with
  | none =>
    refine serves_of_reply fun fd => ?_
    simp only [requestCallback, serveGetData, hdata, h]
    rfl
  | some data =>
    refine serves_of_reply fun fd => ?_
    rw [dataReply]
    by_cases hlong : mimeType.bytes.length > memfdNameMax
    · simp only [requestCallback, serveGetData, hdata, h, memfdCreate, if_pos hlong]
      rfl
    · simp only [requestCallback, serveGetData, hdata, h, memfdCreate, if_neg hlong, hmemfd]
      rfl

/-- The entry that a request names does not exist. -/
theorem serves_missing {req : Request} {id : ℤ}
    (h : ∀ fd, s.requestCallback a fd req = s.sendError fd (idDoesNotExist id)) :
    Serves a req s (.error ((idDoesNotExist id).take 255)) s.clipboard :=
  serves_of_reply h

theorem serves_setClipboard (hsql : a.sql = allOk) {id : ℤ} (hid : id = -1 ∨ s.clipboard.Has id) :
    Serves a (.setClipboard (some id)) s (.success none) (s.clipboard.select id) := by
  have hserved : ∀ fd, s.requestCallback a fd (.setClipboard (some id)) =
      ((s.set a.sql none id).update a id none).2.sendSuccess fd := by
    intro fd
    have hexists : ¬(id ≠ -1 ∧ (!databaseIdExists (a.sql .idExists 0) id s.db) = true) := by
      rintro ⟨hne, hmissing⟩
      rw [hsql, databaseIdExists, allOk_apply, Bool.true_and,
        has_iff.mp (hid.resolve_left hne)] at hmissing
      cases hmissing
    simp only [requestCallback, serveSetClipboard, if_neg hexists, update_eq hsql, if_true]
  refine ⟨fun fd client hclient hevents => ?_, fun fd => ?_⟩
  · have hset := findClient_set hevents hclient a.sql none id
    rw [hserved]
    exact findClient_reply (findClient_update hevents hsql hset id none) _
  · rw [hserved]
    exact (clipboard_refresh hsql _ id).trans (clipboard_set a.sql none id s)

theorem findClient_entryDeleted {fd : ℕ} {client : Client} (hevents : client.events = [])
    (hclient : s.findClient fd = some client) (id : ℤ) :
    (s.entryDeleted a fd id).findClient fd = some (client.ipcCtWriteMsg (.success none)) := by
  have hreported : ∀ t : State, t.findClient fd = some client →
      ({ t.sendSuccess fd with ipc := ipcEventEntryDelete id (t.sendSuccess fd).ipc } :
        State).findClient fd = some (client.ipcCtWriteMsg (.success none)) := by
    intro t ht
    have hwritten : (client.ipcCtWriteMsg (.success none)).events = [] := hevents
    exact findClient_emit_unsubscribed hwritten (findClient_reply ht _) _
  unfold entryDeleted
  split
  · exact hreported _ (findClient_set (s := { s with id := -1 }) hevents hclient a.sql none (-1))
  · exact hreported s hclient

theorem serves_deleteEntry (h : s.WF) (hsql : a.sql = allOk) {id : ℤ} (hid : s.clipboard.Has id) :
    Serves a (.deleteEntry (some id)) s (.success none) (s.clipboard.remove id) := by
  have hne : id ≠ -1 := by
    have hpos := idPos_of_has h hid
    omega
  have hserved : ∀ fd, s.requestCallback a fd (.deleteEntry (some id)) =
      (s.withoutEntries [id]).entryDeleted a fd id := by
    intro fd
    simp only [requestCallback, serveDeleteEntry, if_neg hne, hsql, databaseIdExists, allOk_apply,
      Bool.true_and, has_iff.mp hid]
    rfl
  refine ⟨fun fd client hclient hevents => ?_, fun fd => ?_⟩
  · rw [hserved]
    exact findClient_entryDeleted (s := s.withoutEntries [id]) hevents hclient id
  · rw [hserved, clipboard_entryDeleted, clipboard_delEntry h]
    change (if id = -1 ∨ id = s.id then _ else _) = _
    by_cases hcurrent : s.id = id
    · have hremoved : (s.clipboard.remove id).current = -1 := if_pos hcurrent
      rw [if_pos (Or.inr hcurrent.symm), Clipboard.select, ← hremoved]
      rfl
    · have hother : ¬(id = -1 ∨ id = s.id) := fun hor =>
        hor.elim hne fun heq => hcurrent heq.symm
      have hkept : (s.clipboard.remove id).current = s.id := if_neg hcurrent
      rw [if_neg hother, Clipboard.select, ← hkept]

theorem serves_clear (h : s.WF) (hsql : a.sql = allOk) :
    Serves a (.deleteEntry (some (-1))) s (.success none) Clipboard.empty := by
  have hserved : ∀ fd, s.requestCallback a fd (.deleteEntry (some (-1))) =
      (s.withoutEntries (s.db.tables.entries.map Entry.id)).entryDeleted a fd (-1) := by
    intro fd
    simp only [requestCallback, serveDeleteEntry, hsql]
    rfl
  refine ⟨fun fd client hclient hevents => ?_, fun fd => ?_⟩
  · rw [hserved]
    exact findClient_entryDeleted (s := s.withoutEntries (s.db.tables.entries.map Entry.id))
      hevents hclient (-1)
  · rw [hserved, clipboard_entryDeleted, if_pos (Or.inl rfl), clipboard_clear h]
    rfl

/-- The flag is found from the one that the entry has. -/
theorem pinFlag_eq (h : s.WF) (hsql : a.sql = allOk) (id : ℤ) {pin : PinArg} (hpin : pin ≠ .other) :
    ∃ flag, s.pinFlag a id pin = some flag ∧
      ∀ row ∈ s.clipboard.history, row.1 = id → flag = Clipboard.pinned pin row.2 := by
  cases pin with
  | yes | no => exact ⟨_, rfl, fun _ _ _ => rfl⟩
  | other => exact absurd rfl hpin
  | toggle =>
    refine ⟨_, rfl, fun row hrow hid => ?_⟩
    obtain ⟨e, he, rfl⟩ := List.mem_map.mp hrow
    have hmem : e ∈ s.db.tables.entries := mem_history.mp he
    have hpinned : databaseEntryIsPinned (a.sql .getPinned 0) id s.db = e.pinned := by
      rw [hsql, databaseEntryIsPinned, allOk_apply, Bool.true_and, Bool.eq_iff_iff,
        List.any_eq_true]
      constructor
      · rintro ⟨x, hx, hflag⟩
        rw [Bool.and_eq_true, decide_eq_true_eq] at hflag
        rw [h.db.tables.idDistinct.eq hmem hx (hid.trans hflag.1.symm)]
        exact hflag.2
      · intro hflag
        exact ⟨e, hmem, by rw [hflag, decide_eq_true hid]; rfl⟩
    rw [hpinned]
    rfl

theorem serves_pinEntry (h : s.WF) (hsql : a.sql = allOk) {id : ℤ} (hid : s.clipboard.Has id)
    {pin : PinArg} (hpin : pin ≠ .other) :
    Serves a (.pinEntry (some id) (some pin)) s (.success none)
      (s.clipboard.setPinned id (Clipboard.pinned pin)) := by
  obtain ⟨flag, hflag, hrows⟩ := pinFlag_eq h hsql id hpin
  have hserved : ∀ fd, s.requestCallback a fd (.pinEntry (some id) (some pin)) =
      (s.update a id (some flag)).2.sendSuccess fd := by
    intro fd
    have hexists : (!databaseIdExists (a.sql .idExists 0) id s.db) = false := by
      rw [hsql, databaseIdExists, allOk_apply, Bool.true_and, has_iff.mp hid]
      rfl
    simp only [requestCallback, servePinEntry, hexists, hflag, update_eq hsql]
    rfl
  refine ⟨fun fd client hclient hevents => ?_, fun fd => ?_⟩
  · rw [hserved]
    exact findClient_reply (findClient_update hevents hsql hclient id (some flag)) _
  · rw [hserved]
    refine (clipboard_update hsql s id (some flag)).trans (congrArg
      (fun history => { s.clipboard with history := history }) ?_)
    refine List.map_congr_left fun row hrow => ?_
    split
    · rename_i hrowid
      rw [← hrows row hrow hrowid]
      rfl
    · rfl

end Serves

end State

end Swayclip
