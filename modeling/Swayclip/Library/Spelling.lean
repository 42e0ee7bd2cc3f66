import Mathlib.Data.List.Basic

/-! # Spelling lists out

A list of items is written down as the concatenation of their spellings, with nothing in
between. Two different lists read the same exactly if, after a common front, the spelling of one
item goes on where that of the other ends, and what follows agrees. Where every item can be
told from the front of a text, the list can be read back.
-/

namespace Swayclip.Library.Spelling

variable {α β : Type*} (spell : α → List β)

/-- After a common front, the spelling of the next item of the first list is a proper prefix of
that of the second, and the items after them make up for it. -/
inductive Overlaps : List α → List α → Prop
  | here {a b : α} {as bs : List α} {more : List β} (hmore : more ≠ [])
      (hnext : spell b = spell a ++ more)
      (hrest : as.flatMap spell = more ++ bs.flatMap spell) : Overlaps (a :: as) (b :: bs)
  | there {a : α} {as bs : List α} (h : Overlaps as bs) : Overlaps (a :: as) (a :: bs)

/-- The lists read the same although they differ. -/
def Ambiguous (as bs : List α) : Prop := Overlaps spell as bs ∨ Overlaps spell bs as

variable {spell}

theorem Overlaps.flatMap_eq {as bs : List α} (h : Overlaps spell as bs) :
    as.flatMap spell = bs.flatMap spell := by
  induction h with
  | here _ hnext hrest => simp [hnext, hrest]
  | there _ ih => simp [ih]

theorem Overlaps.ne {as bs : List α} (h : Overlaps spell as bs) : as ≠ bs := by
  induction h with
  | here hmore hnext _ =>
    rintro ⟨rfl, -⟩
    exact hmore (by simpa using hnext)
  | there _ ih => simpa using ih

theorem Ambiguous.flatMap_eq {as bs : List α} (h : Ambiguous spell as bs) :
    as.flatMap spell = bs.flatMap spell := by
  cases h with
  | inl h => exact h.flatMap_eq
  | inr h => exact h.flatMap_eq.symm

theorem Ambiguous.ne {as bs : List α} (h : Ambiguous spell as bs) : as ≠ bs := by
  cases h with
  | inl h => exact h.ne
  | inr h => exact h.ne.symm

theorem Ambiguous.cons {as bs : List α} (a : α) (h : Ambiguous spell as bs) :
    Ambiguous spell (a :: as) (a :: bs) :=
  Or.imp .there .there h

theorem flatMap_ne_nil (hspell : ∀ a, spell a ≠ []) {a : α} {as : List α} :
    (a :: as).flatMap spell ≠ [] := by
  simp [hspell]

/-- The first items are the same, or one of them is spelled longer. -/
theorem flatMap_cons_eq {a b : α} {as bs : List α} (hinj : spell a = spell b → a = b)
    (h : (a :: as).flatMap spell = (b :: bs).flatMap spell) :
    a = b ∧ as.flatMap spell = bs.flatMap spell ∨ Ambiguous spell (a :: as) (b :: bs) := by
  rw [List.flatMap_cons, List.flatMap_cons, List.append_eq_append_iff] at h
  rcases h with ⟨more, hnext, hrest⟩ | ⟨more, hnext, hrest⟩
  · by_cases hmore : more = []
    · subst hmore
      exact Or.inl ⟨hinj (by simpa using hnext.symm), by simpa using hrest⟩
    · exact Or.inr (Or.inl (.here hmore hnext hrest))
  · by_cases hmore : more = []
    · subst hmore
      exact Or.inl ⟨hinj (by simpa using hnext), by simpa using hrest.symm⟩
    · exact Or.inr (Or.inr (.here hmore hnext hrest))

/-- Lists of items with different spellings read the same if they are the same or ambiguous. -/
theorem flatMap_eq_iff (hspell : ∀ a, spell a ≠ []) {as bs : List α}
    (hinj : ∀ a ∈ as, ∀ b ∈ bs, spell a = spell b → a = b) :
    as.flatMap spell = bs.flatMap spell ↔ as = bs ∨ Ambiguous spell as bs := by
  constructor
  · intro h
    induction as generalizing bs with
    | nil =>
      cases bs with
      | nil => exact Or.inl rfl
      | cons b bs => exact absurd h.symm (flatMap_ne_nil hspell)
    | cons a as ih =>
      cases bs with
      | nil => exact absurd h (flatMap_ne_nil hspell)
      | cons b bs =>
        rcases flatMap_cons_eq (hinj a (by simp) b (by simp)) h with ⟨rfl, hrest⟩ | hambiguous
        · have htails : ∀ x ∈ as, ∀ y ∈ bs, spell x = spell y → x = y := fun x hx y hy =>
            hinj x (by simp [hx]) y (by simp [hy])
          cases ih htails hrest with
          | inl hsame => exact Or.inl (by rw [hsame])
          | inr hambiguous => exact Or.inr (hambiguous.cons a)
        · exact Or.inr hambiguous
  · rintro (rfl | h)
    · rfl
    · exact h.flatMap_eq

/-! ## Reading back -/

/-- Knows from the front of a text alone which item is spelled there, and where the next begins. -/
structure Reader (spell : α → List β) where
  read : List β → Option (α × List β)
  read_spell : ∀ a rest, read (spell a ++ rest) = some (a, rest)

namespace Reader
variable (reader : Reader spell)

/-- Reads items until nothing is left, but no more than `fuel` of them. -/
def decode : ℕ → List β → Option (List α)
  | _, [] => some []
  | 0, _ :: _ => none
  | fuel + 1, text =>
    match reader.read text with
    | none => none
    | some (a, rest) => (decode fuel rest).map (a :: ·)

theorem decode_spell (hspell : ∀ a, spell a ≠ []) (fuel : ℕ) (a : α) (rest : List β) :
    reader.decode (fuel + 1) (spell a ++ rest) = (reader.decode fuel rest).map (a :: ·) := by
  obtain ⟨b, text, htext⟩ := List.exists_cons_of_ne_nil
    (List.append_ne_nil_of_left_ne_nil (hspell a) rest)
  have hread := reader.read_spell a rest
  rw [htext] at hread ⊢
  rw [decode, hread]
  exact List.cons_ne_nil b text

theorem decode_flatMap (hspell : ∀ a, spell a ≠ []) {fuel : ℕ} {as : List α}
    (hfuel : as.length ≤ fuel) : reader.decode fuel (as.flatMap spell) = some as := by
  induction as generalizing fuel with
  | nil => rw [List.flatMap_nil, decode]
  | cons a as ih =>
    cases fuel with
    | zero => exact absurd hfuel (Nat.not_succ_le_zero _)
    | succ fuel =>
      rw [List.flatMap_cons, decode_spell reader hspell, ih (Nat.le_of_succ_le_succ hfuel)]
      rfl

end Reader

/-- Every item makes the text longer, so that the text itself is fuel enough. -/
theorem length_le_flatMap (hspell : ∀ a, spell a ≠ []) (as : List α) :
    as.length ≤ (as.flatMap spell).length := by
  induction as with
  | nil => exact Nat.le_refl 0
  | cons a as ih =>
    have ha := List.length_pos_of_ne_nil (hspell a)
    rw [List.length_cons, List.flatMap_cons, List.length_append]
    omega

theorem flatMap_length_le {k : ℕ} (hspell : ∀ a, (spell a).length ≤ k) (as : List α) :
    (as.flatMap spell).length ≤ k * as.length := by
  induction as with
  | nil => exact Nat.zero_le _
  | cons a as ih =>
    have ha := hspell a
    rw [List.length_cons, List.flatMap_cons, List.length_append, Nat.mul_succ]
    omega

/-- What can be read back has been spelled in one way only. -/
theorem Reader.flatMap_injective (reader : Reader spell) (hspell : ∀ a, spell a ≠ []) :
    Function.Injective (List.flatMap spell) := by
  intro as bs hsame
  have has := reader.decode_flatMap hspell (length_le_flatMap hspell as)
  have hbs := reader.decode_flatMap hspell (length_le_flatMap hspell bs)
  rw [hsame, hbs] at has
  exact (Option.some.inj has).symm

end Swayclip.Library.Spelling
