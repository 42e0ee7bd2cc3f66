import Mathlib.Data.Nat.Digits.Lemmas

/-! # Decimal numbers

Integers are written with ASCII digits, and read from the front of a text up to the first byte
that is not a digit.
-/

namespace Swayclip.Library.Decimal

/-- The byte of a digit. -/
def digit (d : ℕ) : UInt8 := UInt8.ofNat (48 + d)

def isDigit (b : UInt8) : Bool := 48 ≤ b && b ≤ 57

/-- The most significant digit comes first. -/
def natural (n : ℕ) : List UInt8 :=
  if n = 0 then [48] else (Nat.digits 10 n).reverse.map digit

def decimal : ℤ → List UInt8
  | .ofNat n => natural n
  | .negSucc n => 45 :: natural (n + 1)

/-- The value of a string of digits. -/
def value (digits : List UInt8) : ℕ := digits.foldl (fun v b => 10 * v + (b.toNat - 48)) 0

def readNatural (text : List UInt8) : ℕ := value (text.takeWhile isDigit)

/-- `isspace`. -/
def isSpace (b : UInt8) : Bool := b = 32 || (9 ≤ b && b ≤ 13)

/-- Leading white space and a sign are allowed; without digits the value is zero. -/
def readInteger (text : List UInt8) : ℤ :=
  match text.dropWhile isSpace with
  | 45 :: digits => -(readNatural digits : ℤ)
  | 43 :: digits => readNatural digits
  | digits => readNatural digits

/-- A number below a power of ten has no more digits than its exponent. -/
theorem length_natural_le {n k : ℕ} (hk : 0 < k) (h : n < 10 ^ k) : (natural n).length ≤ k := by
  unfold natural
  split
  · exact hk
  · rw [List.length_map, List.length_reverse]
    exact (Nat.digits_length_le_iff (by decide) n).mpr h

theorem length_decimal_le {n : ℤ} {k : ℕ} (hk : 0 < k) (h : n.natAbs < 10 ^ k) :
    (decimal n).length ≤ k + 1 := by
  cases n with
  | ofNat n => exact (length_natural_le hk h).trans (Nat.le_succ k)
  | negSucc n => exact Nat.succ_le_succ (length_natural_le hk h)

theorem digit_toNat {d : ℕ} (h : d < 10) : (digit d).toNat = 48 + d := by
  rw [digit, UInt8.toNat_ofNat']
  omega

theorem isDigit_iff {b : UInt8} : isDigit b = true ↔ 48 ≤ b.toNat ∧ b.toNat ≤ 57 := by
  rw [isDigit, Bool.and_eq_true, decide_eq_true_eq, decide_eq_true_eq, UInt8.le_iff_toNat_le,
    UInt8.le_iff_toNat_le]
  rfl

theorem isDigit_digit {d : ℕ} (h : d < 10) : isDigit (digit d) = true := by
  rw [isDigit_iff, digit_toNat h]
  omega

theorem isDigit_natural {n : ℕ} : ∀ b ∈ natural n, isDigit b = true := by
  unfold natural
  split
  · rintro b hb
    rw [List.mem_singleton.mp hb]
    decide
  · rintro b hb
    obtain ⟨d, hd, rfl⟩ := List.mem_map.mp hb
    exact isDigit_digit (Nat.digits_lt_base (by decide) (List.mem_reverse.mp hd))

theorem natural_ne_nil (n : ℕ) : natural n ≠ [] := by
  unfold natural
  split
  · exact nofun
  · rename_i hn
    rw [ne_eq, List.map_eq_nil_iff, List.reverse_eq_nil_iff]
    exact Nat.digits_ne_nil_iff_ne_zero.mpr hn

/-- Digits from the least significant one on, read from the other end. -/
theorem value_digits {ds : List ℕ} (h : ∀ d ∈ ds, d < 10) :
    value (ds.reverse.map digit) = Nat.ofDigits 10 ds := by
  induction ds with
  | nil => rfl
  | cons d ds ih =>
    have hd : d < 10 := h d List.mem_cons_self
    have hds := ih fun d hd => h d (List.mem_cons_of_mem _ hd)
    rw [value] at hds ⊢
    rw [List.reverse_cons, List.map_append, List.foldl_append, hds, Nat.ofDigits_cons]
    change 10 * _ + ((digit d).toNat - 48) = _
    rw [digit_toNat hd]
    omega

theorem value_natural (n : ℕ) : value (natural n) = n := by
  unfold natural
  split
  · rename_i hn
    rw [hn]
    rfl
  · rw [value_digits fun d hd => Nat.digits_lt_base (by decide) hd, Nat.ofDigits_digits]

/-- What follows the digits does not matter, unless it starts with one. -/
theorem readNatural_append {rest : List UInt8} (hrest : ∀ b ∈ rest.head?, isDigit b = false)
    (n : ℕ) : readNatural (natural n ++ rest) = n := by
  have htake : rest.takeWhile isDigit = [] := by
    cases rest with
    | nil => rfl
    | cons b rest => rw [List.takeWhile_cons_of_neg (by rw [hrest b rfl]; exact nofun)]
  rw [readNatural, List.takeWhile_append_of_pos isDigit_natural, htake, List.append_nil,
    value_natural]

/-- A digit is neither white space nor a sign. -/
theorem readInteger_of_digit {b : UInt8} (hb : isDigit b = true) (text : List UInt8) :
    readInteger (b :: text) = readNatural (b :: text) := by
  rw [isDigit_iff] at hb
  have hspace : ¬ isSpace b = true := by
    rw [isSpace, Bool.or_eq_true, Bool.and_eq_true, decide_eq_true_eq, decide_eq_true_eq,
      decide_eq_true_eq, UInt8.le_iff_toNat_le, UInt8.le_iff_toNat_le]
    rintro (rfl | ⟨-, h⟩)
    · exact absurd hb.1 (by decide)
    · exact absurd (hb.1.trans h) (by decide)
  unfold readInteger
  rw [List.dropWhile_cons_of_neg hspace]
  split <;> rename_i heq
  · obtain ⟨rfl, -⟩ := List.cons.inj heq
    exact absurd hb.1 (by decide)
  · obtain ⟨rfl, -⟩ := List.cons.inj heq
    exact absurd hb.1 (by decide)
  · rfl

/-- What is written is read back. -/
theorem readInteger_decimal (n : ℤ) {rest : List UInt8}
    (hrest : ∀ b ∈ rest.head?, isDigit b = false) : readInteger (decimal n ++ rest) = n := by
  cases n with
  | ofNat n =>
    have hread := readNatural_append hrest n
    have hdigit := isDigit_natural (n := n)
    rw [decimal]
    cases htext : natural n with
    | nil => exact absurd htext (natural_ne_nil n)
    | cons b digits =>
      rw [htext] at hread hdigit
      rw [List.cons_append, readInteger_of_digit (hdigit b List.mem_cons_self), ← List.cons_append,
        hread]
      rfl
  | negSucc n =>
    rw [decimal, List.cons_append]
    change -(readNatural (natural (n + 1) ++ rest) : ℤ) = _
    rw [readNatural_append hrest]
    rfl

end Swayclip.Library.Decimal
