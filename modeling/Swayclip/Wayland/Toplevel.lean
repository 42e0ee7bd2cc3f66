import Swayclip.Wayland.Filter

/-! # Toplevels

Each toplevel is looked up in the configuration when a change to it is done, and one pointer
names the toplevel whose filter applies to what is offered.
-/

namespace Swayclip

/-- `struct config_toplevel`. -/
structure ConfigToplevel extends MimeFilter where
  titles : List Regex
  appIds : List Regex

/-- The states of `zwlr_foreign_toplevel_handle_v1`. -/
inductive ToplevelState where
  | maximized
  | minimized
  | activated
  | fullscreen
deriving DecidableEq

/-- `struct toplevel`, named by its handle. For statements, `done` records the title, the app
id and whether the toplevel was activated at its last `done` event. -/
structure Toplevel where
  handle : ℕ
  title : Option CString
  appId : Option CString
  activated : Bool
  ack : Bool
  config : Option ConfigToplevel
  done : Option (Option CString × Option CString × Bool)

/-- The toplevels of `struct wayland`; the pointer is kept as the handle. -/
structure Toplevels where
  toplevels : List Toplevel
  activeToplevel : Option ℕ

/-- What the compositor says about toplevels. A title or an app id is `none` when the copy of it
could not be allocated. -/
inductive ToplevelEvent where
  | toplevel (handle : ℕ) (allocated : Bool)
  | title (handle : ℕ) (title : Option CString)
  | appId (handle : ℕ) (appId : Option CString)
  | state (handle : ℕ) (states : List ToplevelState)
  | done (handle : ℕ)
  | closed (handle : ℕ)
  | finished

/-- Whether one list of patterns matches a property, which may be missing. -/
def matchProperty (patterns : List Regex) (property : Option CString) : Bool :=
  patterns.length = 0 || property.any (matchRegexArray patterns)

/-- The test in the loop of `ftp_event_done`. -/
def ConfigToplevel.matchToplevel (title appId : Option CString) (config : ConfigToplevel) : Bool :=
  matchProperty config.titles title && matchProperty config.appIds appId

/-- The loop: the first configured toplevel that matches. -/
def queryConfig (configured : List ConfigToplevel) (title appId : Option CString) :
    Option ConfigToplevel :=
  configured.find? (ConfigToplevel.matchToplevel title appId)

def ftpEventTitle (title : Option CString) (tp : Toplevel) : Toplevel :=
  { tp with ack := false, title := title }

def ftpEventAppId (appId : Option CString) (tp : Toplevel) : Toplevel :=
  { tp with ack := false, appId := appId }

def ftpEventState (states : List ToplevelState) (tp : Toplevel) : Toplevel :=
  { tp with activated := states.contains .activated }

/-- The end of `ftp_event_done`, for a toplevel that is configured. -/
def settleActive (tp : Toplevel) (active : Option ℕ) : Option ℕ :=
  if tp.activated ∧ active ≠ some tp.handle then some tp.handle
  else if ¬ tp.activated ∧ active = some tp.handle then none
  else active

/-- The toplevel and the pointer after `ftp_event_done`. -/
def ftpEventDone (configured : List ConfigToplevel) (tp : Toplevel) (active : Option ℕ) :
    Toplevel × Option ℕ :=
  let tp := { tp with done := some (tp.title, tp.appId, tp.activated) }
  if ¬ tp.ack then
    let tp := { tp with config := queryConfig configured tp.title tp.appId, ack := true }
    if tp.config.isNone then (tp, if active = some tp.handle then none else active)
    else (tp, settleActive tp active)
  else if tp.config.isNone then (tp, active)
  else (tp, settleActive tp active)

namespace Toplevels

def find (handle : ℕ) (w : Toplevels) : Option Toplevel :=
  w.toplevels.find? (fun tp => tp.handle = handle)

def onToplevel (handle : ℕ) (f : Toplevel → Toplevel) (w : Toplevels) : Toplevels :=
  { w with toplevels := w.toplevels.map (fun tp => if tp.handle = handle then f tp else tp) }

/-- Handles of live objects are unique. -/
def waylandAddToplevel (handle : ℕ) (allocated : Bool) (w : Toplevels) : Toplevels :=
  match w.find handle with
  | some _ => w
  | none =>
    if allocated then
      { w with toplevels := ⟨handle, none, none, false, false, none, none⟩ :: w.toplevels }
    else w

def waylandDelToplevel (handle : ℕ) (w : Toplevels) : Toplevels :=
  { toplevels := w.toplevels.filter (fun tp => tp.handle ≠ handle)
    activeToplevel := if w.activeToplevel = some handle then none else w.activeToplevel }

def eventDone (configured : List ConfigToplevel) (handle : ℕ) (w : Toplevels) : Toplevels :=
  match w.find handle with
  | none => w
  | some tp =>
    let (tp, active) := ftpEventDone configured tp w.activeToplevel
    { w.onToplevel handle (fun _ => tp) with activeToplevel := active }

/-- One event; those for handles that are gone are not received. -/
def step (configured : List ConfigToplevel) (w : Toplevels) (event : ToplevelEvent) : Toplevels :=
  match event with
  | .toplevel handle allocated => w.waylandAddToplevel handle allocated
  | .title handle title => w.onToplevel handle (ftpEventTitle title)
  | .appId handle appId => w.onToplevel handle (ftpEventAppId appId)
  | .state handle states => w.onToplevel handle (ftpEventState states)
  | .done handle => w.eventDone configured handle
  | .closed handle => if (w.find handle).isSome then w.waylandDelToplevel handle else w
  | .finished => w.toplevels.foldl (fun w tp => w.waylandDelToplevel tp.handle) w

def init : Toplevels := ⟨[], none⟩

/-- The filter that `data_offer_event_offer` applies after the global one. -/
def activeFilter (w : Toplevels) : Option MimeFilter :=
  (w.activeToplevel.bind fun handle => w.find handle).bind fun tp =>
    tp.config.map ConfigToplevel.toMimeFilter

end Toplevels

end Swayclip
