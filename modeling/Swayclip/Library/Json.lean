import Mathlib.Algebra.Order.BigOperators.Group.List
import Swayclip.Library.Decimal

/-! # JSON values and their texts

Values as a program builds them, and the text that is written without spaces. How much space a
text takes depends on how strings are escaped and on nothing else.
-/

namespace Swayclip.Library
open Decimal

/-- Without null and numbers that are no integers. -/
inductive Json where
  | bool (b : Bool)
  | int (n : ℤ)
  | string (s : List UInt8)
  | array (elems : List Json)
  | object (fields : List (List UInt8 × Json))

namespace Json

/-! ## Texts -/

/-- A digit of a `\u` escape. -/
def hexDigit (d : ℕ) : UInt8 := if d < 10 then UInt8.ofNat (48 + d) else UInt8.ofNat (87 + d)

/-- A byte within quotes. -/
def escape (b : UInt8) : List UInt8 :=
  match b with
  | 8 => [92, 98]
  | 10 => [92, 110]
  | 13 => [92, 114]
  | 9 => [92, 116]
  | 12 => [92, 102]
  | 34 => [92, 34]
  | 92 => [92, 92]
  | 47 => [92, 47]
  | _ => if b < 32 then [92, 117, 48, 48, hexDigit (b.toNat / 16), hexDigit (b.toNat % 16)] else [b]

def quote (s : List UInt8) : List UInt8 := 34 :: (s.flatMap escape ++ [34])

mutual

/-- The text of a value. -/
def plainText : Json → List UInt8
  | .bool b => if b then [116, 114, 117, 101] else [102, 97, 108, 115, 101]
  | .int n => decimal n
  | .string s => quote s
  | .array elems => 91 :: (elemsText elems ++ [93])
  | .object fields => 123 :: (fieldsText fields ++ [125])

def elemsText : List Json → List UInt8
  | [] => []
  | [j] => plainText j
  | j :: elems => plainText j ++ 44 :: elemsText elems

def fieldsText : List (List UInt8 × Json) → List UInt8
  | [] => []
  | [(key, j)] => quote key ++ 58 :: plainText j
  | (key, j) :: fields => quote key ++ 58 :: (plainText j ++ 44 :: fieldsText fields)

end

example : plainText (.object [([105, 100], .int (-7)), ([], .array [.bool true, .string [47]])]) =
    [123, 34, 105, 100, 34, 58, 45, 55, 44, 34, 34, 58, 91, 116, 114, 117, 101, 44, 34, 92, 47,
      34, 93, 125] := by decide +kernel

/-! ## Sizes -/

section Sizes
variable (width : UInt8 → ℕ)

def stringSize (s : List UInt8) : ℕ := 2 + (s.map width).sum

mutual

/-- The size of a text in which a byte of a string takes `width` bytes. -/
def size : Json → ℕ
  | .bool b => if b then 4 else 5
  | .int n => (decimal n).length
  | .string s => stringSize width s
  | .array elems => 2 + elemsSize elems + (elems.length - 1)
  | .object fields => 2 + fieldsSize fields + (fields.length - 1)

def elemsSize : List Json → ℕ
  | [] => 0
  | j :: elems => size j + elemsSize elems

def fieldsSize : List (List UInt8 × Json) → ℕ
  | [] => 0
  | (key, j) :: fields => stringSize width key + 1 + size j + fieldsSize fields

end

/-- A writer whose texts have these sizes. -/
def Plain (text : Json → List UInt8) : Prop := ∀ j, (text j).length = size width j

variable {width}

theorem stringSize_le {k : ℕ} (h : ∀ b, width b ≤ k) (s : List UInt8) :
    stringSize width s ≤ 2 + s.length * k := by
  have hsum := List.sum_le_card_nsmul (s.map width) k fun x hx => by
    obtain ⟨b, -, rfl⟩ := List.mem_map.mp hx
    exact h b
  rw [List.length_map, Nat.nsmul_eq_mul] at hsum
  exact Nat.add_le_add_left hsum 2

theorem length_le_stringSize (h : ∀ b, 1 ≤ width b) (s : List UInt8) :
    s.length ≤ stringSize width s := by
  have hsum := List.card_nsmul_le_sum (s.map width) 1 fun x hx => by
    obtain ⟨b, -, rfl⟩ := List.mem_map.mp hx
    exact h b
  rw [List.length_map, Nat.nsmul_eq_mul, Nat.mul_one] at hsum
  exact hsum.trans (Nat.le_add_left _ 2)

theorem elemsSize_eq (elems : List Json) :
    elemsSize width elems = (elems.map (size width)).sum := by
  induction elems with
  | nil => rfl
  | cons j elems ih => rw [elemsSize, ih, List.map_cons, List.sum_cons]

theorem size_le_array {j : Json} {elems : List Json} (h : j ∈ elems) :
    size width j ≤ size width (.array elems) := by
  have hsum : size width j ≤ (elems.map (size width)).sum :=
    List.le_sum_of_mem (List.mem_map_of_mem h)
  rw [size, elemsSize_eq]
  omega

theorem size_le_object {key : List UInt8} {j : Json} {fields : List (List UInt8 × Json)}
    (h : (key, j) ∈ fields) : size width j ≤ size width (.object fields) := by
  have hfields : size width j ≤ fieldsSize width fields := by
    induction fields with
    | nil => cases h
    | cons field fields ih =>
      rw [fieldsSize]
      rcases List.mem_cons.mp h with rfl | h
      · exact (Nat.le_add_left _ _).trans (Nat.le_add_right _ _)
      · exact (ih h).trans (Nat.le_add_left _ _)
  rw [size]
  omega

end Sizes

theorem escape_length (b : UInt8) : 1 ≤ (escape b).length ∧ (escape b).length ≤ 6 := by
  unfold escape
  split
  case h_9 => split <;> exact ⟨Nat.le_of_ble_eq_true rfl, Nat.le_of_ble_eq_true rfl⟩
  all_goals exact ⟨by decide, by decide⟩

theorem quote_length (s : List UInt8) :
    (quote s).length = stringSize (fun b => (escape b).length) s := by
  rw [quote, stringSize, List.length_cons, List.length_append, List.length_flatMap]
  exact Nat.add_comm _ 2

mutual

theorem plainText_length : ∀ j, (plainText j).length = size (fun b => (escape b).length) j
  | .bool b => by cases b <;> rfl
  | .int n => rfl
  | .string s => quote_length s
  | .array elems => by
    rw [plainText, size, List.length_cons, List.length_append, elemsText_length elems,
      List.length_singleton]
    omega
  | .object fields => by
    rw [plainText, size, List.length_cons, List.length_append, fieldsText_length fields,
      List.length_singleton]
    omega

/-- There is a comma between two elements. -/
theorem elemsText_length : ∀ elems, (elemsText elems).length =
    elemsSize (fun b => (escape b).length) elems + (elems.length - 1)
  | [] => rfl
  | [j] => by
    rw [elemsText, plainText_length j]
    rfl
  | j :: j' :: elems => by
    have hrest := elemsText_length (j' :: elems)
    rw [elemsText, List.length_append, List.length_cons, plainText_length j, hrest]
    · simp only [elemsSize, List.length_cons]
      omega
    · exact nofun

theorem fieldsText_length : ∀ fields, (fieldsText fields).length =
    fieldsSize (fun b => (escape b).length) fields + (fields.length - 1)
  | [] => rfl
  | [(key, j)] => by
    rw [fieldsText, List.length_append, List.length_cons, plainText_length j, quote_length key]
    simp only [fieldsSize, List.length_cons, List.length_nil]
    omega
  | (key, j) :: field :: fields => by
    have hrest := fieldsText_length (field :: fields)
    rw [fieldsText, List.length_append, List.length_cons, List.length_append, List.length_cons,
      plainText_length j, quote_length key, hrest]
    · simp only [fieldsSize, List.length_cons]
      omega
    · exact nofun

end

theorem plainText_plain : Plain (fun b => (escape b).length) plainText := plainText_length

end Json

end Swayclip.Library
