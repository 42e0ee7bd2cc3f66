import Swayclip.Cli.Print
import Swayclip.Library.Buffer
import Swayclip.Library.Spelling

/-! # Escaping a text in its buffer

`text_escape` writes into a buffer of a size that it has computed beforehand. The buffer is never
too small, and from what is in it afterwards the text can be read back.
-/

namespace Swayclip.Cli
open Library Library.Buffer Library.Spelling

/-! ## The loop over the buffer -/

/-- A backslash and a letter, one after the other. -/
def pushEscape (letter : UInt8) (out : Buffer UInt8) : Option (Buffer UInt8) :=
  (out.push 92).bind (push letter)

/-- One round of the loop of `text_escape`. -/
def escapeStep (c : UInt8) (out : Buffer UInt8) : Option (Buffer UInt8) :=
  match c with
  | 7 => pushEscape 97 out
  | 8 => pushEscape 98 out
  | 12 => pushEscape 102 out
  | 10 => pushEscape 110 out
  | 13 => pushEscape 114 out
  | 9 => pushEscape 116 out
  | 11 => pushEscape 118 out
  | 92 => pushEscape 92 out
  | c =>
    if c < 32 || c = 127 then
      out.print 0 (ascii ['\\', 'x'] ++
        [upperHexDigit (c.toNat / 16), upperHexDigit (c.toNat % 16)])
    else out.push c

/-- `text_escape` with the memory that it is given, in which there may be anything at first. The
size of a text that is in memory is far from an overflow. -/
def textEscapeInto (garbage : ℕ → UInt8) (str : Bytes) : Option Bytes :=
  let out := (List.range (str.length * 4 + 1)).map garbage
  ((str.foldlM (fun out c => escapeStep c out) ⟨out, 0⟩).bind (poke 0)).map Buffer.mem

theorem writes_pushEscape (letter : UInt8) : Writes (pushEscape letter) [92, letter] :=
  (writes_push 92).bind (writes_push letter)

/-- A round writes what the byte is escaped to. -/
theorem writes_escapeStep (c : UInt8) : Writes (escapeStep c) (escapeByte c) := by
  fun_cases escapeByte c
  case case9 h7 h8 h12 h10 h13 h9 h11 h92 hcontrol =>
    have hstep : escapeStep c = print 0 (ascii ['\\', 'x'] ++
        [upperHexDigit (c.toNat / 16), upperHexDigit (c.toNat % 16)]) := by
      funext out
      rw [escapeStep, if_pos hcontrol]
      all_goals assumption
    rw [hstep]
    exact writes_print 0 _
  case case10 h7 h8 h12 h10 h13 h9 h11 h92 hcontrol =>
    have hstep : escapeStep c = push c := by
      funext out
      rw [escapeStep, if_neg hcontrol]
      all_goals assumption
    rw [hstep]
    exact writes_push c
  all_goals exact writes_pushEscape _

/-! ## How long the text gets -/

theorem escapeByte_ne_nil (c : UInt8) : escapeByte c ≠ [] := by
  rcases escapeByte_cases c with ⟨letter, -, hescape⟩ | hescape | ⟨-, hescape⟩
  all_goals
    rw [hescape]
    exact List.cons_ne_nil _ _

theorem escapeByte_length_le (c : UInt8) : (escapeByte c).length ≤ 4 := by
  rcases escapeByte_cases c with ⟨letter, -, hescape⟩ | hescape | ⟨-, hescape⟩
  · rw [hescape, List.length_cons, List.length_singleton]
    decide
  · rw [hescape]
    exact Nat.le_refl 4
  · rw [hescape, List.length_singleton]
    decide

theorem textEscape_length (str : Bytes) :
    str.length ≤ (textEscape str).length ∧ (textEscape str).length ≤ 4 * str.length :=
  ⟨length_le_flatMap escapeByte_ne_nil str, flatMap_length_le escapeByte_length_le str⟩

/-- There is room for every byte and for the terminator. -/
theorem textEscapeInto_eq (garbage : ℕ → UInt8) (str : Bytes) : ∃ rest,
    textEscapeInto garbage str = some (textEscape str ++ 0 :: rest) := by
  have hsize : (textEscape str).length + 1 ≤
      ((List.range (str.length * 4 + 1)).map garbage).length := by
    rw [List.length_map, List.length_range, Nat.mul_comm]
    exact Nat.succ_le_succ (textEscape_length str).2
  obtain ⟨out, rest, hout, hmem⟩ :=
    (writes_foldlM writes_escapeStep str).terminated hsize 0
  refine ⟨rest, ?_⟩
  rw [textEscape, ← hmem]
  exact congrArg (Option.map Buffer.mem) hout

/-! ## Reading the text back -/

/-- The value of a digit of the conversion `%X`. -/
def hexValue (digit : UInt8) : ℕ := if digit ≤ 57 then digit.toNat - 48 else digit.toNat - 55

def readHex : Bytes → Option (UInt8 × Bytes)
  | high :: low :: rest => some (UInt8.ofNat (hexValue high * 16 + hexValue low), rest)
  | _ => none

/-- What comes after a backslash. -/
def readLetter : Bytes → Option (UInt8 × Bytes)
  | [] => none
  | letter :: rest =>
    if letter = 120 then readHex rest
    else (namedEscapes.find? (fun named => named.2 = letter)).map (fun named => (named.1, rest))

def readEscape : Bytes → Option (UInt8 × Bytes)
  | [] => none
  | c :: rest => if c = 92 then readLetter rest else some (c, rest)

theorem hexValue_upperHexDigit : ∀ d < 16, hexValue (upperHexDigit d) = d := by
  decide

theorem readEscape_escapeByte (c : UInt8) (rest : Bytes) :
    readEscape (escapeByte c ++ rest) = some (c, rest) := by
  rcases escapeByte_cases c with ⟨letter, hletter, hescape⟩ | hescape | ⟨⟨-, -, h92⟩, hescape⟩
  · have hnamed : ∀ named ∈ namedEscapes, named.2 ≠ 120 ∧
        namedEscapes.find? (fun other => other.2 = named.2) = some named :=
      List.forall_iff_forall_mem.mp (by decide)
    obtain ⟨h120, hfind⟩ := hnamed _ hletter
    rw [hescape]
    exact (if_neg h120).trans (congrArg (Option.map fun named => (named.1, rest)) hfind)
  · have hhigh : c.toNat / 16 < 16 := Nat.div_lt_of_lt_mul c.toNat_lt
    have hlow : c.toNat % 16 < 16 := Nat.mod_lt _ (by decide)
    have hread : readEscape (escapeByte c ++ rest) = some (UInt8.ofNat
        (hexValue (upperHexDigit (c.toNat / 16)) * 16 +
          hexValue (upperHexDigit (c.toNat % 16))), rest) := by
      rw [hescape]
      rfl
    rw [hread, hexValue_upperHexDigit _ hhigh, hexValue_upperHexDigit _ hlow, Nat.div_add_mod',
      UInt8.ofNat_toNat]
  · rw [hescape]
    exact if_neg h92

/-- The bytes of the text that has been escaped. -/
def escapes : Reader escapeByte := ⟨readEscape, readEscape_escapeByte⟩

def textUnescape (text : Bytes) : Option Bytes := escapes.decode text.length text

theorem textUnescape_textEscape (str : Bytes) : textUnescape (textEscape str) = some str :=
  escapes.decode_flatMap escapeByte_ne_nil (textEscape_length str).1

/-- A text that is escaped can be read back, has no control characters, and is at most four times
as long as what it was made from, so that it always fits into the buffer. -/
theorem textEscape_reversible :
    (∀ str, textUnescape (textEscape str) = some str) ∧ Function.Injective textEscape ∧
      ∀ str, (∀ b ∈ textEscape str, 32 ≤ b ∧ b ≠ 127) ∧
        str.length ≤ (textEscape str).length ∧ (textEscape str).length ≤ 4 * str.length ∧
        ∀ garbage, ∃ out, textEscapeInto garbage str = some out ∧
          (CString.ofBytes out).bytes = textEscape str := by
  refine ⟨textUnescape_textEscape, escapes.flatMap_injective escapeByte_ne_nil, fun str => ?_⟩
  obtain ⟨hat_least, hat_most⟩ := textEscape_length str
  refine ⟨textEscape_printable str, hat_least, hat_most, fun garbage => ?_⟩
  obtain ⟨rest, hout⟩ := textEscapeInto_eq garbage str
  have hnonul : 0 ∉ textEscape str := fun h => absurd (textEscape_printable str 0 h).1 (by decide)
  exact ⟨_, hout, CString.ofBytes_terminated hnonul rest⟩

end Swayclip.Cli
