import Swayclip.Cli.Print

/-! # Listing the history, and choosing from the list

`swctl list` asks for the history in pages and for the data of each entry, and prints a line for
an entry. `swctl set --decode` reads an id from such a line.
-/

namespace Swayclip
open Library Library.Lines Decimal

namespace Cli

/-- What `roundtrip` obtains for a request, unless it fails. -/
abbrev Roundtrip := Request → Option Message

section Commands
variable (roundtrip : Roundtrip)

/-- The loop of `print_entry`; `false` is a check that failed. -/
def printRows : List Json → Bytes × Bool
  | [] => ([], true)
  | entry :: entries =>
    match extractShown entry with
    | none => ([], false)
    | some shown =>
      match roundtrip (.getData (some shown.id) (some shown.mimeType)) with
      | none => ([], false)
      | some dataResp =>
        match shown.line dataResp with
        | (line, false) => (line ++ [newline], true)
        | (line, true) =>
          let (out, ok) := printRows entries
          (line ++ [newline] ++ out, ok)

/-- What is printed, and whether the page was the last one, unless a check failed. -/
def printEntry (text : Json → Bytes) (start n : ℤ) (json printEmpty : Bool) : Bytes × Option Bool :=
  match roundtrip (.getHistory (some start) (some n)) with
  | none => ([], none)
  | some resp =>
    match resp.obj with
    | .array entries =>
      if entries.length = 0 then
        (if printEmpty && json then ascii "[]".toList ++ [newline] else [], some true)
      else
        let last : Bool := entries.length ≠ n
        if json then (text resp.obj ++ [newline], some last)
        else
          let (out, ok) := printRows roundtrip entries
          (out, if ok then some last else none)
    | _ => ([], none)

/-- The loop of `command_list`: the output, and whether the command succeeds. -/
def listPages (text : Json → Bytes) (json : Bool) (first : Bool) (off remain : ℤ) : Bytes × Bool :=
  if 0 < remain then
    match printEntry roundtrip text off (min 100 remain) json (!first) with
    | (out, none) => (out, false)
    | (out, some true) => (out, true)
    | (out, some false) =>
      let (rest, ok) := listPages text json true (off + 100) (remain - 100)
      (out ++ rest, ok)
  else ([], true)
termination_by remain.toNat
decreasing_by omega

def commandList (text : Json → Bytes) (json : Bool) (start number : ℤ) : Bytes × Bool :=
  listPages roundtrip text json false start number

section Pages
variable {roundtrip} {text : Json → Bytes} {json first : Bool} {off remain : ℤ} {out : Bytes}

theorem listPages_next (h : 0 < remain)
    (hpage : printEntry roundtrip text off (min 100 remain) json (!first) = (out, some false)) :
    listPages roundtrip text json first off remain =
      (out ++ (listPages roundtrip text json true (off + 100) (remain - 100)).1,
        (listPages roundtrip text json true (off + 100) (remain - 100)).2) := by
  rw [listPages, if_pos h, hpage]

theorem listPages_last (h : 0 < remain)
    (hpage : printEntry roundtrip text off (min 100 remain) json (!first) = (out, some true)) :
    listPages roundtrip text json first off remain = (out, true) := by
  rw [listPages, if_pos h, hpage]

theorem listPages_failed (h : 0 < remain)
    (hpage : (printEntry roundtrip text off (min 100 remain) json (!first)).2 = none) :
    (listPages roundtrip text json first off remain).2 = false := by
  have hpair : printEntry roundtrip text off (min 100 remain) json (!first) =
      ((printEntry roundtrip text off (min 100 remain) json (!first)).1, none) := Prod.ext rfl hpage
  rw [listPages, if_pos h, hpair]

theorem listPages_done (h : ¬ 0 < remain) :
    listPages roundtrip text json first off remain = ([], true) := by
  rw [listPages, if_neg h]

end Pages

end Commands

/-! ## Choosing -/

/-- The bounds of `long`. -/
def longMin : ℤ := -9223372036854775808

def longMax : ℤ := 9223372036854775807

/-- `strtol` in base 10. -/
def strtol (text : Bytes) : ℤ := max longMin (min longMax (readInteger text))

/-- The request that `command_set` makes, if it makes one. -/
def commandSet (clear decode : Bool) (stdin : Bytes) (arg : Option CString) : Option Request :=
  if decode then
    if stdin.length = 0 then none else some (.setClipboard (some (strtol stdin)))
  else if !clear then
    match arg with
    | none => none
    | some arg => some (.setClipboard (some (strtol arg.bytes)))
  else some (.setClipboard (some (-1)))

theorem strtol_numbered {id : ℤ} (hmin : longMin ≤ id) (hmax : id ≤ longMax) (preview : Bytes) :
    strtol (numbered id preview) = id := by
  have hread : readInteger (numbered id preview) = id := by
    rw [numbered, List.append_assoc]
    apply readInteger_decimal
    rintro b ⟨⟩
    decide
  rw [strtol, hread, min_eq_right hmax, max_eq_right hmin]

end Cli

end Swayclip
