import Swayclip.Daemon.Clipboard

/-! # What a clipboard manager is for

The history as a list of contents, the one that was copied last first, with no rows, digests, sort
indices or shared data. What is copied comes to the front, and is not stored twice if the user does
not want that; what is old and not pinned falls off at the end.
-/

namespace Swayclip

/-- An entry of the history. Copies of its content find it as long as no other entry has been
created for them. -/
structure Item where
  id : ℤ
  pinned : Bool
  content : Content
  found : Bool

/-- The history with the next id and the entry that is made current again at the next start. -/
structure Shelf where
  items : List Item
  next : ℤ
  last : Option ℤ

namespace Shelf

def empty : Shelf := ⟨[], 1, none⟩

def Has (h : Shelf) (id : ℤ) : Prop := ∃ x ∈ h.items, x.id = id

instance (h : Shelf) (id : ℤ) : Decidable (h.Has id) :=
  inferInstanceAs (Decidable (∃ x ∈ h.items, x.id = id))

/-- Where a copy of the content finds it. -/
inductive Found where
  | nowhere
  | first
  | behind (id : ℤ)

def Item.holds (content : Content) (x : Item) : Bool := x.found && x.content = content

def find (content : Content) (h : Shelf) : Found :=
  match h.items with
  | [] => .nowhere
  | x :: rest =>
    if Item.holds content x then .first
    else match rest.find? (Item.holds content) with
      | none => .nowhere
      | some y => .behind y.id

/-- The new entry is the one that copies of its content find from now on. -/
def add (content : Content) (h : Shelf) : Shelf where
  items := ⟨h.next, false, content, true⟩ :: h.items.map fun x =>
    if Item.holds content x then { x with found := false } else x
  next := h.next + 1
  last := some h.next

/-- The entry comes to the front. -/
def raise (id : ℤ) (h : Shelf) : Shelf :=
  { h with
    items := (h.items.find? fun x => x.id = id).toList ++ h.items.filter fun x => x.id ≠ id
    last := some id }

/-- Of the entries that are not pinned, the `n` newest are kept. -/
def trim (n : ℕ) (h : Shelf) : Shelf :=
  { h with items := h.items.filter fun x =>
      x.pinned || h.items.countP (fun y => !y.pinned && x.id < y.id) < n }

def remove (id : ℤ) (h : Shelf) : Shelf := { h with items := h.items.filter fun x => x.id ≠ id }

def setPinned (id : ℤ) (f : Bool → Bool) (h : Shelf) : Shelf :=
  { h with items := h.items.map fun x =>
      if x.id = id then { x with pinned := f x.pinned } else x }

/-- What is copied, and the entry that is current then. -/
def copy (dedup : Dedup) (content : Content) (h : Shelf) : Shelf × Option ℤ :=
  match dedup, h.find content with
  | .prev, .first | .all, .first => (h, none)
  | .all, .behind id => (h.raise id, some id)
  | _, _ => (h.add content, some h.next)

end Shelf

/-- The manager, with what the next session will find. The current entry is 0 while it is the
transient content, and -1 if there is none. -/
structure Manager where
  config : Config
  live : Shelf
  disk : Shelf
  current : ℤ
  transient : Content

/-- What concerns the manager of all that happens. -/
inductive Action where
  | restart (config : Config)
  | copy (transient : Bool) (content : Option Content)
  | request (req : Request)

namespace Manager

def start (config : Config) (disk : Shelf) : Manager :=
  let live := (if config.persist then disk else Shelf.empty).trim config.maxEntries
  { config := config
    live := live
    disk := disk
    current := if config.setOnStartup then live.last.getD (-1) else -1
    transient := [] }

/-- The next session finds what this one leaves, or what it has found. -/
def file (m : Manager) : Shelf := if m.config.persist then m.live else m.disk

def select (id : ℤ) (m : Manager) : Manager :=
  { m with
    live := if id > 0 then { m.live with last := some id } else m.live
    current := id }

/-- Content that cannot be received leaves no current entry. -/
def store (content : Option Content) (m : Manager) : Manager :=
  match content with
  | none => { m with current := -1 }
  | some content =>
    let (live, current) := m.live.copy m.config.dedup content
    { m with live := live, current := current.getD m.current }

def trim (m : Manager) : Manager := { m with live := m.live.trim m.config.maxEntries }

/-- Transient content is current until something else is copied, and is not stored. -/
def copied (transient : Bool) (content : Option Content) (m : Manager) : Manager :=
  match transient, content with
  | true, none => { m with current := -1, transient := [] }
  | true, some content => { m with current := 0, transient := content }
  | false, content => ({ m with transient := [] }.store content).trim

def request (req : Request) (m : Manager) : Manager :=
  match req with
  | .setClipboard (some id) => if id = -1 ∨ m.live.Has id then m.select id else m
  | .deleteEntry (some id) =>
    if id = -1 then { m with live := { m.live with items := [] }, current := -1 }
    else { m with
      live := m.live.remove id
      current := if m.live.Has id ∧ m.current = id then -1 else m.current }
  | .pinEntry (some id) (some pin) =>
    { m with live := m.live.setPinned id (Clipboard.pinned pin) }
  | _ => m

def act (m : Manager) : Action → Manager
  | .restart config => start config m.file
  | .copy transient content => m.copied transient content
  | .request req => m.request req

/-- The manager of a fresh start, after all that has happened since. -/
def ofActions (config : Config) (actions : List Action) : Manager :=
  actions.foldl act (start config Shelf.empty)

/-- What somebody who pastes the type gets. -/
def paste (mimeType : CString) (m : Manager) : Option Bytes :=
  if m.current = 0 then (m.transient.first mimeType).bind readable
  else (m.live.items.find? fun x => x.id = m.current).bind fun x =>
    (x.content.first mimeType).bind readable

end Manager

end Swayclip
