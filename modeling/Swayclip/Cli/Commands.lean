import Swayclip.Cli.List
import Swayclip.Daemon.Clipboard
import Swayclip.Ipc.Requests

/-! # The commands of swctl

All commands but `list` and `events` make one request, and end with what they print of the reply
and their exit status. What they are for is said of a clipboard: a history whose entries have
data, one of which may be current.
-/

namespace Swayclip
open Library Library.Lines Decimal

namespace Cli

inductive Command where
  | len
  | set (clear decode : Bool) (stdin : Bytes) (arg : Option CString)
  | get (id mimeType : Option CString)
  | delete (clear : Bool) (arg : Option CString)
  | pin (unpin toggle : Bool) (arg : Option CString)
  | current

namespace Command

def pinArg (unpin toggle : Bool) : PinArg :=
  if toggle then .toggle else if !unpin then .yes else .no

/-- What is asked for, unless an argument is missing. -/
def ask : Command → Option Ask
  | .len => some .getHistoryLength
  | .set clear decode stdin arg =>
    if decode then if stdin.length = 0 then none else some (.setClipboard (strtol stdin))
    else if !clear then arg.map fun arg => .setClipboard (strtol arg.bytes)
    else some (.setClipboard (-1))
  | .get (some id) (some mimeType) => some (.getData (strtol id.bytes) mimeType)
  | .get _ _ => none
  | .delete clear arg =>
    if !clear then arg.map fun arg => .deleteEntry (strtol arg.bytes)
    else some (.deleteEntry (-1))
  | .pin unpin toggle arg => arg.map fun arg => .pinEntry (strtol arg.bytes) (pinArg unpin toggle)
  | .current => some .getCurrent

/-- What is printed once the reply is there, and whether the command succeeds. An error has to
come with its text. -/
def finish (resp : Message) : Command → Bytes × Bool
  | .len =>
    match jsonExtractInt "size" resp.obj with
    | none => ([], false)
    | some size => (decimal size ++ [newline], true)
  | .current =>
    match resp.obj with
    | .int id => (decimal id ++ [newline], true)
    | _ => ([], false)
  | .get _ _ =>
    if resp.type = IpcMessageType.error.code ∧ jsonExtractStr "desc" resp.obj = none then
      ([], false)
    else
      match resp.auxData with
      | none => ([], false)
      | some data => (data, isSuccess resp)
  | _ => ([], isSuccess resp)

/-- The command with what `roundtrip` obtains for its request. -/
def run (command : Command) (roundtrip : Ask → Option Message) : Bytes × Bool :=
  match command.ask with
  | none => ([], false)
  | some ask =>
    match roundtrip ask with
    | none => ([], false)
    | some resp => command.finish resp

theorem ask_set (clear decode : Bool) (stdin : Bytes) (arg : Option CString) :
    (Command.set clear decode stdin arg).ask.map Ask.request =
      commandSet clear decode stdin arg := by
  unfold ask commandSet
  cases decode with
  | true =>
    simp only [if_true]
    split <;> rfl
  | false => cases clear <;> cases arg <;> rfl

theorem strtol_inRange (text : Bytes) : Ask.Fits.InRange (strtol text) := by
  have hmin : longMin ≤ strtol text := le_max_left ..
  have hmax : strtol text ≤ longMax := max_le (by decide) (min_le_left ..)
  exact ⟨hmin, hmax⟩

/-- All numbers come from `strtol`, or are -1. -/
theorem ask_fits {command : Command} {ask : Ask} (h : command.ask = some ask) : ask.Fits := by
  have hclear : Ask.Fits.InRange (-1) := ⟨by decide, by decide⟩
  unfold Command.ask at h
  split at h
  · obtain rfl := Option.some.inj h
    trivial
  · split at h
    · split at h
      · cases h
      · obtain rfl := Option.some.inj h
        exact strtol_inRange _
    · split at h
      · obtain ⟨arg, -, rfl⟩ := Option.map_eq_some_iff.mp h
        exact strtol_inRange _
      · obtain rfl := Option.some.inj h
        exact hclear
  · obtain rfl := Option.some.inj h
    exact strtol_inRange _
  · cases h
  · split at h
    · obtain ⟨arg, -, rfl⟩ := Option.map_eq_some_iff.mp h
      exact strtol_inRange _
    · obtain rfl := Option.some.inj h
      exact hclear
  · obtain ⟨arg, -, rfl⟩ := Option.map_eq_some_iff.mp h
    refine ⟨strtol_inRange _, ?_⟩
    unfold pinArg
    split
    · exact fun h => by cases h
    · split <;> exact fun h => by cases h
  · obtain rfl := Option.some.inj h
    trivial

end Command

end Cli

/-! ## What they are for -/

namespace Clipboard

def onEntry (id : ℤ) (f : Clipboard → Clipboard) (c : Clipboard) : (Bytes × Bool) × Clipboard :=
  if c.Has id then (([], true), f c) else (([], false), c)

/-- Without an entry to name, a command fails. -/
def onArg (arg : Option CString) (f : ℤ → (Bytes × Bool) × Clipboard) (c : Clipboard) :
    (Bytes × Bool) × Clipboard :=
  match arg with
  | none => (([], false), c)
  | some arg => f (Cli.strtol arg.bytes)

/-- An id of -1 is no entry: it stands for no current entry. -/
def choose (id : ℤ) (c : Clipboard) : (Bytes × Bool) × Clipboard :=
  if id = -1 then (([], true), c.select (-1)) else c.onEntry id (select id)

/-- An id of -1 stands for all entries. -/
def discard (id : ℤ) (c : Clipboard) : (Bytes × Bool) × Clipboard :=
  if id = -1 then (([], true), empty) else c.onEntry id (remove id)

/-- The data comes in a descriptor, which has to be named after the type. -/
def fetch (id : ℤ) (mimeType : CString) (c : Clipboard) : (Bytes × Bool) × Clipboard :=
  match c.data id mimeType with
  | none => (([], false), c)
  | some data =>
    if mimeType.bytes.length > memfdNameMax then (([], false), c) else ((data, true), c)

/-- What a command prints, whether it succeeds, and what it makes of the clipboard. -/
def run (c : Clipboard) : Cli.Command → (Bytes × Bool) × Clipboard
  | .len => ((decimal c.history.length ++ [Cli.newline], true), c)
  | .current => ((decimal c.current ++ [Cli.newline], true), c)
  | .get id mimeType =>
    match mimeType with
    | none => (([], false), c)
    | some mimeType => onArg id (fun id => c.fetch id mimeType) c
  | .set clear decode stdin arg =>
    if decode then if stdin = [] then (([], false), c) else c.choose (Cli.strtol stdin)
    else if clear then c.choose (-1) else onArg arg c.choose c
  | .delete clear arg => if clear then c.discard (-1) else onArg arg c.discard c
  | .pin unpin toggle arg =>
    onArg arg (fun id => c.onEntry id
      (setPinned id fun old => if toggle then !old else !unpin)) c

end Clipboard

end Swayclip
