import Swayclip.Cli.Message
import Swayclip.Library.Lines

/-! # How entries are printed

For pickers, an entry is its id and a preview. A text is escaped; the type of what cannot be
shown as a text is printed as it is.
-/

namespace Swayclip.Cli
open Library Decimal

/-! ## Texts -/

/-- A digit of the conversion `%X`. -/
def upperHexDigit (d : ℕ) : UInt8 := if d < 10 then digit d else UInt8.ofNat (55 + d)

/-- The `switch` of `text_escape`. -/
def escapeByte (c : UInt8) : Bytes :=
  match c with
  | 7 => ascii ['\\', 'a']
  | 8 => ascii ['\\', 'b']
  | 12 => ascii ['\\', 'f']
  | 10 => ascii ['\\', 'n']
  | 13 => ascii ['\\', 'r']
  | 9 => ascii ['\\', 't']
  | 11 => ascii ['\\', 'v']
  | 92 => ascii ['\\', '\\']
  | c =>
    if c < 32 || c = 127 then
      ascii ['\\', 'x'] ++ [upperHexDigit (c.toNat / 16), upperHexDigit (c.toNat % 16)]
    else [c]

def textEscape (str : Bytes) : Bytes := str.flatMap escapeByte

/-- The bytes that have a letter after the backslash. -/
def namedEscapes : List (UInt8 × UInt8) :=
  [(7, 97), (8, 98), (12, 102), (10, 110), (13, 114), (9, 116), (11, 118), (92, 92)]

/-- What the `switch` does with a byte. -/
theorem escapeByte_cases (c : UInt8) :
    (∃ letter, (c, letter) ∈ namedEscapes ∧ escapeByte c = [92, letter]) ∨
      escapeByte c = [92, 120, upperHexDigit (c.toNat / 16), upperHexDigit (c.toNat % 16)] ∨
      (32 ≤ c ∧ c ≠ 127 ∧ c ≠ 92) ∧ escapeByte c = [c] := by
  fun_cases escapeByte c
  case case9 => exact Or.inr (Or.inl rfl)
  case case10 h7 h8 h12 h10 h13 h9 h11 h92 hcontrol =>
    simp only [Bool.or_eq_true, decide_eq_true_eq, not_or, UInt8.not_lt] at hcontrol
    exact Or.inr (Or.inr ⟨⟨hcontrol.1, hcontrol.2, h92⟩, rfl⟩)
  all_goals exact Or.inl ⟨_, by decide, rfl⟩

theorem upperHexDigit_printable : ∀ d < 16, 32 ≤ upperHexDigit d ∧ upperHexDigit d ≠ 127 := by
  decide

theorem escapeByte_printable (c : UInt8) : ∀ b ∈ escapeByte c, 32 ≤ b ∧ b ≠ 127 := by
  rcases escapeByte_cases c with ⟨letter, hletter, hescape⟩ | hescape | ⟨hplain, hescape⟩
  · have hletters : ∀ named ∈ namedEscapes, 32 ≤ named.2 ∧ named.2 ≠ 127 :=
      List.forall_iff_forall_mem.mp (by decide)
    rw [hescape, List.forall_mem_cons, List.forall_mem_singleton]
    exact ⟨by decide, hletters _ hletter⟩
  · have hhigh : c.toNat / 16 < 16 := Nat.div_lt_of_lt_mul c.toNat_lt
    have hlow : c.toNat % 16 < 16 := Nat.mod_lt _ (by decide)
    rw [hescape, List.forall_mem_cons, List.forall_mem_cons, List.forall_mem_cons,
      List.forall_mem_singleton]
    exact ⟨by decide, by decide, upperHexDigit_printable _ hhigh, upperHexDigit_printable _ hlow⟩
  · rw [hescape, List.forall_mem_singleton]
    exact ⟨hplain.1, hplain.2.1⟩

theorem textEscape_printable (str : Bytes) : ∀ b ∈ textEscape str, 32 ≤ b ∧ b ≠ 127 := by
  intro b hb
  obtain ⟨c, -, hc⟩ := List.mem_flatMap.mp hb
  exact escapeByte_printable c b hc

/-! ## Sizes -/

/-- How often the loop divides a size by 1024. -/
def unitIndex : ℕ → ℕ → ℕ
  | 0, _ => 0
  | units + 1, size => if size ≥ 1024 then 1 + unitIndex units (size / 1024) else 0

/-- The conversion `%.2f` of a quotient: hundredths, with ties to even. -/
def hundredths (n d : ℕ) : ℕ :=
  let q := 100 * n / d
  let r := 100 * n % d
  if 2 * r > d || (2 * r = d && q % 2 = 1) then q + 1 else q

def twoDecimals (h : ℕ) : Bytes :=
  natural (h / 100) ++ ascii ['.'] ++ [digit (h / 10 % 10), digit (h % 10)]

/-- A size is a `double`, which is exact for the sizes that data has. -/
def humanReadableSize (bytes : ℕ) : Bytes :=
  match unitIndex 3 bytes with
  | 0 => natural bytes ++ ascii " B".toList
  | 1 => twoDecimals (hundredths bytes 1024) ++ ascii " KB".toList
  | 2 => twoDecimals (hundredths bytes (1024 ^ 2)) ++ ascii " MB".toList
  | _ => twoDecimals (hundredths bytes (1024 ^ 3)) ++ ascii " GB".toList

example : humanReadableSize 1023 = ascii "1023 B".toList ∧
    humanReadableSize 1541 = ascii "1.50 KB".toList := by decide +kernel

/-! ## Entries -/

/-- The fields of an entry that are printed. -/
structure Shown where
  id : ℤ
  pinned : Bool
  current : Bool
  contentType : CString
  mimeType : CString

def extractShown (entry : Json) : Option Shown :=
  match jsonExtractInt "id" entry, jsonExtractBool "pinned" entry, jsonExtractBool "current" entry,
      jsonExtractStr "content_type" entry, jsonExtractStr "content_mime_type" entry with
  | some id, some pinned, some current, some contentType, some mimeType =>
    some ⟨id, pinned, current, contentType, mimeType⟩
  | _, _, _, _, _ => none

/-- The buffer `aux`. -/
def Shown.aux (shown : Shown) : Bytes :=
  (if shown.current then ascii "[CURRENT] ".toList else []) ++
    if shown.pinned then ascii "[PINNED] ".toList else []

/-- The id and a tab come first on every line. -/
def numbered (id : ℤ) (preview : Bytes) : Bytes := decimal id ++ ascii ['\t'] ++ preview

/-- What stands for data that is not shown. -/
def placeholder (what : String) (mimeType size : Bytes) : Bytes :=
  ascii "[[ ".toList ++ ascii what.toList ++ ascii " ".toList ++ mimeType ++ ascii " ".toList ++
    size ++ ascii " ]]".toList

/-- What is printed for an entry, without the newline, and whether the loop goes on. -/
def Shown.line (shown : Shown) (dataResp : Message) : Bytes × Bool :=
  let size := humanReadableSize dataResp.auxDataLen
  if shown.contentType.bytes = ascii "binary".toList then
    (numbered shown.id (shown.aux ++ placeholder "binary data" shown.mimeType.bytes size), true)
  else if shown.contentType.bytes = ascii "text".toList then
    match dataResp.auxData with
    | none => (numbered shown.id (placeholder "error" shown.mimeType.bytes size), false)
    | some stuff => (numbered shown.id (shown.aux ++ textEscape (stuff.take 100)), true)
  else if shown.contentType.bytes = ascii "image".toList then
    (numbered shown.id (shown.aux ++ placeholder "image data" shown.mimeType.bytes size), true)
  else
    (numbered shown.id (ascii "[[ unknown data ".toList ++ size ++ ascii " ]]".toList), true)

/-- The type of the data is printed as it is. -/
def Shown.PrintsType (shown : Shown) : Prop :=
  shown.contentType.bytes = ascii "binary".toList ∨ shown.contentType.bytes = ascii "image".toList

/-! ## Where newlines can come from -/

/-- `'\n'`. -/
def newline : UInt8 := 10

theorem newline_not_mem_natural (n : ℕ) : newline ∉ natural n := fun h =>
  absurd (isDigit_natural newline h) (by decide)

theorem newline_not_mem_decimal (n : ℤ) : newline ∉ decimal n := by
  cases n with
  | ofNat n => exact newline_not_mem_natural n
  | negSucc n =>
    rw [decimal, List.mem_cons, not_or]
    exact ⟨by decide, newline_not_mem_natural _⟩

theorem newline_ne_digit {d : ℕ} (h : d < 10) : newline ≠ digit d := by
  intro heq
  have hdigit := isDigit_digit h
  rw [← heq] at hdigit
  exact absurd hdigit (by decide)

theorem newline_not_mem_twoDecimals (h : ℕ) : newline ∉ twoDecimals h := by
  have htenths : newline ≠ digit (h / 10 % 10) := newline_ne_digit (Nat.mod_lt _ (by decide))
  have hlast : newline ≠ digit (h % 10) := newline_ne_digit (Nat.mod_lt _ (by decide))
  simp only [twoDecimals, List.mem_append, List.mem_cons, List.not_mem_nil, or_false, not_or]
  exact ⟨⟨newline_not_mem_natural _, by decide⟩, htenths, hlast⟩

theorem newline_not_mem_size (bytes : ℕ) : newline ∉ humanReadableSize bytes := by
  have hunits : ∀ text unit : Bytes, newline ∉ text → newline ∉ unit → newline ∉ text ++ unit :=
    fun text unit htext hunit h => (List.mem_append.mp h).elim htext hunit
  unfold humanReadableSize
  split
  · exact hunits _ _ (newline_not_mem_natural _) (by decide)
  · exact hunits _ _ (newline_not_mem_twoDecimals _) (by decide)
  · exact hunits _ _ (newline_not_mem_twoDecimals _) (by decide)
  · exact hunits _ _ (newline_not_mem_twoDecimals _) (by decide)

theorem newline_not_mem_textEscape (str : Bytes) : newline ∉ textEscape str := fun h =>
  absurd (textEscape_printable str newline h).1 (by decide)

theorem newline_not_mem_aux (shown : Shown) : newline ∉ shown.aux := by
  unfold Shown.aux
  split <;> split <;> decide

theorem newline_mem_placeholder {what : String} (hwhat : newline ∉ ascii what.toList)
    (mimeType : Bytes) (size : ℕ) :
    newline ∈ placeholder what mimeType (humanReadableSize size) ↔ newline ∈ mimeType := by
  have hopen : newline ∉ ascii "[[ ".toList := by decide
  have hblank : newline ∉ ascii " ".toList := by decide
  have hclose : newline ∉ ascii " ]]".toList := by decide
  simp only [placeholder, List.mem_append, hopen, hwhat, hblank, hclose, newline_not_mem_size,
    false_or, or_false]

theorem newline_mem_numbered (id : ℤ) (preview : Bytes) :
    newline ∈ numbered id preview ↔ newline ∈ preview := by
  have htab : newline ∉ ascii ['\t'] := by decide
  simp only [numbered, List.mem_append, newline_not_mem_decimal, htab, false_or]

section Line
variable {shown : Shown} {dataResp : Message}

theorem line_of_binary (h : shown.contentType.bytes = ascii "binary".toList) :
    (shown.line dataResp).1 = numbered shown.id (shown.aux ++ placeholder "binary data"
      shown.mimeType.bytes (humanReadableSize dataResp.auxDataLen)) := by
  rw [Shown.line, if_pos h]

theorem line_of_image (h : shown.contentType.bytes = ascii "image".toList) :
    (shown.line dataResp).1 = numbered shown.id (shown.aux ++ placeholder "image data"
      shown.mimeType.bytes (humanReadableSize dataResp.auxDataLen)) := by
  rw [Shown.line, if_neg (by rw [h]; decide), if_neg (by rw [h]; decide), if_pos h]

/-- Other lines show a part of the data, or its size only. -/
theorem line_of_other {stuff : Bytes} (hstuff : dataResp.auxData = some stuff)
    (h : ¬ shown.PrintsType) : newline ∉ (shown.line dataResp).1 := by
  have hopen : newline ∉ ascii "[[ unknown data ".toList := by decide
  have hclose : newline ∉ ascii " ]]".toList := by decide
  rw [Shown.PrintsType, not_or] at h
  rw [Shown.line, if_neg h.1]
  split
  · simp only [hstuff, newline_mem_numbered, List.mem_append, newline_not_mem_aux,
      newline_not_mem_textEscape, or_self, not_false_eq_true]
  · rw [if_neg h.2, newline_mem_numbered]
    simp only [List.mem_append, hopen, hclose, newline_not_mem_size, or_self, not_false_eq_true]

/-- Only a type that is printed can put a newline into a line. -/
theorem newline_mem_line_iff {stuff : Bytes} (hstuff : dataResp.auxData = some stuff) :
    newline ∈ (shown.line dataResp).1 ↔ shown.PrintsType ∧ newline ∈ shown.mimeType.bytes := by
  have hprinted : ∀ what : String, newline ∉ ascii what.toList →
      (newline ∈ numbered shown.id (shown.aux ++ placeholder what shown.mimeType.bytes
        (humanReadableSize dataResp.auxDataLen)) ↔ newline ∈ shown.mimeType.bytes) := by
    intro what hwhat
    rw [newline_mem_numbered, List.mem_append, newline_mem_placeholder hwhat]
    exact or_iff_right (newline_not_mem_aux shown)
  by_cases hprints : shown.PrintsType
  · rw [and_iff_right hprints]
    rcases hprints with hbinary | himage
    · rw [line_of_binary hbinary]
      exact hprinted "binary data" (by decide)
    · rw [line_of_image himage]
      exact hprinted "image data" (by decide)
  · exact iff_of_false (line_of_other hstuff hprints) fun h => hprints h.1

/-- The loop goes on after every line, if memory is there for the data. -/
theorem line_goes_on {stuff : Bytes} (hstuff : dataResp.auxData = some stuff) :
    (shown.line dataResp).2 = true := by
  unfold Shown.line
  simp only [hstuff]
  split
  · rfl
  · split
    · rfl
    · split <;> rfl

theorem line_numbered (shown : Shown) (dataResp : Message) :
    ∃ preview, (shown.line dataResp).1 = numbered shown.id preview := by
  unfold Shown.line
  dsimp only
  split
  · exact ⟨_, rfl⟩
  · split
    · split <;> exact ⟨_, rfl⟩
    · split <;> exact ⟨_, rfl⟩

end Line

end Swayclip.Cli
