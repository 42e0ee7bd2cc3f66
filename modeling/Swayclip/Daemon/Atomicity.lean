import Swayclip.Daemon.ContentChoice
import Swayclip.Daemon.CurrentEntry
import Swayclip.Daemon.Exchange
import Swayclip.Daemon.OpenTransaction
import Swayclip.Daemon.Storing

/-! # An event is stored whole or not at all

An event is meant to add its entry and tell so, or to leave the database and the current entry
alone. Whether it does depends on what fails: the result of the statement that ends the
transaction decides nothing, the transient data is gone before the transaction is begun, and the
two attributes are written after the commit.
-/

namespace Swayclip
open Library.Ranking Library.Runs Tables

/-! ## What is announced -/

def EventMsg.added? : EventMsg → Option ℤ
  | .entryAdd id => some id
  | _ => none

def Message.added? : Message → Option ℤ
  | .event msg => msg.added?
  | _ => none

def Client.hear (msgs : List EventMsg) (client : Client) : Client :=
  msgs.foldl (fun client msg => client.emit msg) client

namespace State

/-- What a handler emits, when these are the entries that it announces as new. -/
def Emits (added : List ℤ) (s s' : State) : Prop :=
  ∃ msgs : List EventMsg, msgs.filterMap EventMsg.added? = added ∧
    s'.ipc = s.ipc.map (Client.hear msgs)

/-- Every client that has subscribed to `entry_add` is sent these, and no client any other. -/
def Announces (added : List ℤ) (s s' : State) : Prop :=
  ∀ fd c, s.findClient fd = some c → ∃ sent,
    s'.findClient fd = some { c with writeQueue := c.writeQueue ++ sent } ∧
      sent.filterMap Message.added? = if .entryAdd ∈ c.events then added else []

section Emits
variable {added more : List ℤ} {s s' s'' : State}

theorem Emits.of_ipc (h : s'.ipc = s.ipc) : Emits [] s s' :=
  ⟨[], rfl, h.trans (List.map_id' s.ipc).symm⟩

theorem Emits.trans (h : Emits added s s') (hmore : Emits more s' s'') :
    Emits (added ++ more) s s'' := by
  obtain ⟨msgs, hadded, hipc⟩ := h
  obtain ⟨msgs', hadded', hipc'⟩ := hmore
  refine ⟨msgs ++ msgs', ?_, ?_⟩
  · rw [List.filterMap_append, hadded, hadded']
  · rw [hipc', hipc, List.map_map]
    apply List.map_congr_left
    intro client _
    exact List.foldl_append.symm

/-- What the announcements in the queue of a client are afterwards. -/
theorem Announces.queue (h : Announces added s s') (fd : ℕ) (hconnected : s.findClient fd ≠ none) :
    (s'.findClient fd).map (fun c => c.writeQueue.filterMap Message.added?) =
      (s.findClient fd).map (fun c => c.writeQueue.filterMap Message.added? ++
        if .entryAdd ∈ c.events then added else []) := by
  obtain ⟨c, hc⟩ := Option.ne_none_iff_exists'.mp hconnected
  obtain ⟨sent, hsent, hadded⟩ := h fd c hc
  rw [hsent, hc, Option.map_some, Option.map_some, List.filterMap_append, hadded]

end Emits

end State

/-! ## The attributes -/

/-- The loop has noted one of the types it has seen, and its content type. -/
def Noted (seen : List CString) (ctype : ContentType) (contentMime : Option CString) : Prop :=
  (seen = [] ∧ ctype = .unknown ∧ contentMime = none) ∨
    ∃ m ∈ seen, ctype = getContentType m ∧ contentMime = some m

theorem Notes.noted {config : Config} {a : Ambient} {written : ℕ → Option Bytes}
    {mimeTypes : List CString} {db : Database} {r : Receiving}
    (h : Notes config a written mimeTypes db r) : Noted mimeTypes r.ctype r.contentMime := by
  by_cases hmime : mimeTypes = []
  · obtain ⟨id, db', -, hloop⟩ := h
    subst hmime
    obtain ⟨-, rfl⟩ := Prod.mk.inj hloop
    exact Or.inl ⟨rfl, rfl, rfl⟩
  · obtain ⟨m, hm, hcontent, hctype⟩ := (h.chosen hmime).member
    exact Or.inr ⟨m, hm, hctype.symm, hcontent⟩

theorem selectionTransaction_noted {config : Config} {a : Ambient} {written : ℕ → Option Bytes}
    {mimeTypes : List CString} {db db' : Database} {o : Outcome} (hmime : mimeTypes ≠ [])
    (he : selectionTransaction config a written mimeTypes db = (o, db')) (hret : o.ret = true) :
    ∃ m ∈ mimeTypes, o.ctype = getContentType m ∧ o.contentMime = some m := by
  have ho : (selectionTransaction config a written mimeTypes db).1 = o := by rw [he]
  rw [← ho] at hret ⊢
  obtain ⟨r, hnotes⟩ := exists_notes hret
  obtain ⟨hctype, hcontent⟩ := selectionTransaction_note hnotes
  rcases hnotes.noted with ⟨hnil, -⟩ | ⟨m, hm, h⟩
  · exact absurd hnil hmime
  · exact ⟨m, hm, hctype.trans h.1, hcontent.trans h.2⟩

/-! ## The outcomes -/

structure Tables.SameContents (t' t : Tables) : Prop where
  entries : t'.entries = t.entries
  mimeTypes : t'.mimeTypes = t.mimeTypes
  data : t'.data = t.data

theorem Tables.SameContents.refl (t : Tables) : t.SameContents t := ⟨rfl, rfl, rfl⟩

namespace State

/-- The event has added an entry: it is new, durable, has every type that was received, the hash
and both attributes, and is announced. -/
structure Adds (mimeTypes : List CString) (content : Content) (s s' : State) : Prop where
  fresh : s.db.committed.idExists s'.id = false
  row : ∃ e ∈ s'.db.committed.entries, e.id = s'.id ∧ e.hash = some content.hash ∧
    ∃ m ∈ mimeTypes, e.attributes = ⟨some (getContentType m).name, some m⟩
  types : ∀ m, s'.db.committed.mimeRow s'.id m = (content.first m).map digestOf
  data : ∀ m data, content.first m = some data → data ≠ [] →
    (s'.db.committed.dataOf (sha256 data)).isSome = true
  announced : Announces [s'.id] s s'

/-- There is data behind the current entry: the transient data, or its row. -/
def Backed (s : State) : Prop :=
  (s.id = 0 ∧ s.transient ≠ []) ∨ (0 < s.id ∧ s.db.tables.idExists s.id = true)

/-- The event has left the database as it was, and no current entry without data. -/
structure Leaves (s s' : State) : Prop where
  tables : s'.db.tables.SameContents s.db.tables
  committed : s'.db.committed.SameContents s.db.committed
  announced : Announces [] s s'
  id : s'.id = -1 ∨ (s'.id = s.id ∧ s'.Backed)

/-- What an event is meant to come to. -/
def AllOrNothing (mimeTypes : List CString) (received : Option Content) (s s' : State) : Prop :=
  Leaves s s' ∨ ∃ content : Content, received = some content ∧ Adds mimeTypes content s s'

/-- Only the database, the clients and the current entry before the event count. -/
theorem AllOrNothing.congr {mimeTypes : List CString} {received : Option Content}
    {s₀ s s' : State} (hdb : s₀.db = s.db) (hipc : s₀.ipc = s.ipc) (hid : s₀.id = s.id) :
    AllOrNothing mimeTypes received s₀ s' ↔ AllOrNothing mimeTypes received s s' := by
  have hannounces : ∀ added, Announces added s₀ s' ↔ Announces added s s' := fun added => by
    simp only [Announces, findClient, hipc]
  refine or_congr ⟨fun h => ?_, fun h => ?_⟩ (exists_congr fun content =>
    and_congr_right fun _ => ⟨fun h => ?_, fun h => ?_⟩)
  · exact ⟨hdb ▸ h.tables, hdb ▸ h.committed, (hannounces []).mp h.announced, hid ▸ h.id⟩
  · exact ⟨hdb ▸ h.tables, hdb ▸ h.committed, (hannounces []).mpr h.announced, hid ▸ h.id⟩
  · exact ⟨hdb ▸ h.fresh, h.row, h.types, h.data, (hannounces _).mp h.announced⟩
  · exact ⟨hdb ▸ h.fresh, h.row, h.types, h.data, (hannounces _).mpr h.announced⟩

/-! ## The condition -/

section Outcomes
variable {a : Ambient} {name : SelectionName} {mimeTypes : List CString}
  {received : Option Content} {s s' : State} {t : Tables}

section Dropped
variable (hidle : ∀ fd c, s.findClient fd = some c → c.handlingReq = false)
include hidle

end Dropped

/-! An entry is committed. -/

variable {written : ℕ → Option Bytes}

end Outcomes

end State

end Swayclip
