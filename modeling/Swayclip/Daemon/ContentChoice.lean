import Mathlib.Order.Lattice
import Swayclip.Daemon.Selection
import Swayclip.Library.Choice

/-! # Which content type an entry gets

The loop of `wsignal_selection` notes a content type and the mime type that stands for it. What it
has noted in the end depends on the mime types, and for the content type not on their order.
-/

namespace Swayclip
open Library Library.Choice

theorem ContentType.toNat_injective : Function.Injective ContentType.toNat := by
  intro c d h
  cases c <;> cases d <;> first | rfl | cases h

/-- The order of `enum content_type`: an image comes before a text, a text before binary data. -/
instance : LinearOrder ContentType where
  le c d := c.toNat ≤ d.toNat
  lt c d := c.toNat < d.toNat
  le_refl c := Nat.le_refl c.toNat
  le_trans _ _ _ := Nat.le_trans
  lt_iff_le_not_ge _ _ := Nat.lt_iff_le_and_not_ge
  le_antisymm _ _ h h' := ContentType.toNat_injective (Nat.le_antisymm h h')
  le_total c d := Nat.le_total c.toNat d.toNat
  toDecidableLE c d := inferInstanceAs (Decidable (c.toNat ≤ d.toNat))
  toDecidableLT c d := inferInstanceAs (Decidable (c.toNat < d.toNat))
  toDecidableEq := inferInstance

theorem getContentType_pos (m : CString) : ContentType.unknown < getContentType m := by
  rw [getContentType]
  split
  · decide
  · split <;> decide

/-- The mime types that are used for a text if possible. -/
def PlainText (m : CString) : Prop := m = textPlain ∨ m = textPlainUtf8

instance : DecidablePred PlainText := fun m => inferInstanceAs (Decidable (m = _ ∨ m = _))

theorem getContentType_plainText (m : CString) (h : PlainText m) : getContentType m = .text := by
  rcases h with rfl | rfl <;> decide

/-- The content type is the highest one; the mime type has it, and is a plain text where the content
type is a text and there is a plain text. -/
structure ContentChosen (mimeTypes : List CString) (ctype : ContentType)
    (contentMime : Option CString) : Prop where
  highest : IsGreatest (getContentType '' {m | m ∈ mimeTypes}) ctype
  member : ∃ m ∈ mimeTypes, contentMime = some m ∧ getContentType m = ctype
  plain : ctype = .text → textPlain ∈ mimeTypes ∨ textPlainUtf8 ∈ mimeTypes →
    contentMime = some textPlain ∨ contentMime = some textPlainUtf8

theorem contentChosen_iff {mimeTypes : List CString} {ctype : ContentType}
    {contentMime : Option CString} : ContentChosen mimeTypes ctype contentMime ↔
      Chosen getContentType .text PlainText mimeTypes (ctype, contentMime) := by
  constructor
  · intro h
    obtain ⟨m, hm, rfl, rfl⟩ := h.member
    refine ⟨⟨m, hm, rfl⟩, fun x hx => h.highest.2 ⟨x, hx, rfl⟩, fun htext x hx hplain => ?_⟩
    refine ⟨m, rfl, ?_⟩
    have hthere : textPlain ∈ mimeTypes ∨ textPlainUtf8 ∈ mimeTypes := by
      rcases hplain with rfl | rfl
      · exact Or.inl hx
      · exact Or.inr hx
    exact (h.plain htext hthere).imp Option.some.inj Option.some.inj
  · intro h
    refine ⟨h.isGreatest, ?_, fun htext hthere => ?_⟩
    · obtain ⟨m, hm, hkept⟩ := h.member
      obtain ⟨rfl, rfl⟩ := Prod.mk.inj hkept
      exact ⟨m, hm, rfl, rfl⟩
    · obtain ⟨m, hm, hplain⟩ : ∃ m ∈ mimeTypes, PlainText m :=
        hthere.elim (fun h => ⟨_, h, Or.inl rfl⟩) fun h => ⟨_, h, Or.inr rfl⟩
      obtain ⟨y, rfl, hy⟩ := h.preferred htext m hm hplain
      exact hy.imp (congrArg some) (congrArg some)

/-! ## The loop -/

/-- What the loop has noted. -/
def Receiving.noted (r : Receiving) : ContentType × Option CString := (r.ctype, r.contentMime)

theorem noteContent_noted (m : CString) (r : Receiving) :
    (r.noteContent m).noted = note getContentType .text PlainText r.noted m := by
  by_cases hhigher : r.noted.1 < getContentType m
  · have hlarger : (getContentType m).toNat > r.ctype.toNat := hhigher
    rw [note_higher hhigher]
    simp only [Receiving.noteContent, if_pos hlarger]
    split <;> rfl
  · have hlarger : ¬ (getContentType m).toNat > r.ctype.toNat := hhigher
    by_cases hplain : r.ctype = .text ∧ PlainText m
    · rw [note_preferred hhigher hplain.1 hplain.2]
      simp only [Receiving.noteContent, if_neg hlarger]
      exact congrArg Receiving.noted (if_pos hplain)
    · rw [note_other hhigher hplain]
      simp only [Receiving.noteContent, if_neg hlarger]
      exact congrArg Receiving.noted (if_neg hplain)

theorem receiveMimeTypes_choice {config : Config} {sql : Sql} {written : ℕ → Option Bytes} {id : ℤ}
    {i : ℕ} {mimeTypes : List CString} {r r' : Receiving}
    (h : receiveMimeTypes config sql written id i mimeTypes r = (true, r')) :
    r'.noted = mimeTypes.foldl (note getContentType .text PlainText) r.noted := by
  induction mimeTypes generalizing i r with
  | nil =>
    obtain ⟨-, rfl⟩ := Prod.mk.inj h
    rfl
  | cons m mimeTypes ih =>
    rw [receiveMimeTypes] at h
    split at h
    · cases h
    · dsimp only at h
      split at h
      · cases h
      · rw [List.foldl_cons, ih h, noteContent_noted]
        rfl

/-- The loop has read all mime types of an event, for a row that is new. -/
def Notes (config : Config) (a : Ambient) (written : ℕ → Option Bytes) (mimeTypes : List CString)
    (db : Database) (r : Receiving) : Prop :=
  ∃ id db', databaseNewEntry (a.sql .newEntry 0) a.now db = (some id, db') ∧
    receiveMimeTypes config a.sql written id 0 mimeTypes ⟨db', Sha256.init, .unknown, none⟩ =
      (true, r)

/-- Whatever the order of the mime types is, the loop ends with a choice from them. -/
theorem Notes.chosen {config : Config} {a : Ambient} {written : ℕ → Option Bytes}
    {mimeTypes : List CString} {db : Database} {r : Receiving} (hmime : mimeTypes ≠ [])
    (h : Notes config a written mimeTypes db r) :
    ContentChosen mimeTypes r.ctype r.contentMime := by
  obtain ⟨id, db', -, hloop⟩ := h
  have hread : (r.ctype, r.contentMime) =
      mimeTypes.foldl (note getContentType .text PlainText) (.unknown, none) :=
    receiveMimeTypes_choice hloop
  rw [contentChosen_iff, hread]
  exact chosen_of_ne_nil getContentType_pos getContentType_plainText hmime

/-! ## What is read after the loop -/

/-- What comes after the loop leaves the note as it is. -/
theorem settleEntry_note (dedup : Dedup) (sql : Sql) (entryHash : Digest) (o : Outcome)
    (db : Database) : (settleEntry dedup sql entryHash o db).1.ctype = o.ctype ∧
      (settleEntry dedup sql entryHash o db).1.contentMime = o.contentMime := by
  have hswitch : (deduplicate dedup sql entryHash o db).1.ctype = o.ctype ∧
      (deduplicate dedup sql entryHash o db).1.contentMime = o.contentMime := by
    cases dedup with
    | none => exact ⟨rfl, rfl⟩
    | prev =>
      simp only [deduplicate]
      split
      · exact ⟨rfl, rfl⟩
      · split
        · exact ⟨rfl, rfl⟩
        · split <;> exact ⟨rfl, rfl⟩
    | all =>
      simp only [deduplicate]
      split
      · exact ⟨rfl, rfl⟩
      · split <;> exact ⟨rfl, rfl⟩
  simp only [settleEntry]
  split <;> exact hswitch

section Transaction
variable {config : Config} {a : Ambient} {written : ℕ → Option Bytes} {mimeTypes : List CString}
  {db : Database}

/-- The variables that are read after the label `exit` are those of the loop. -/
theorem selectionTransaction_note {r : Receiving} (h : Notes config a written mimeTypes db r) :
    (selectionTransaction config a written mimeTypes db).1.ctype = r.ctype ∧
      (selectionTransaction config a written mimeTypes db).1.contentMime = r.contentMime := by
  obtain ⟨id, db', hrow, hloop⟩ := h
  simp only [selectionTransaction, hrow, hloop]
  exact settleEntry_note ..

/-- Where the transaction is going to be committed, the loop has come to its end. -/
theorem exists_notes (hret : (selectionTransaction config a written mimeTypes db).1.ret = true) :
    ∃ r, Notes config a written mimeTypes db r := by
  simp only [selectionTransaction] at hret
  split at hret
  · cases hret
  · rename_i id db' hrow
    split at hret
    · cases hret
    · rename_i r hloop
      exact ⟨r, id, db', hrow, hloop⟩

end Transaction

/-- The content type of an event is the highest one of its mime types in whatever order these come,
and the mime type that stands for it has that content type and is a plain text if it can be. -/
theorem content_chosen {mimeTypes : List CString} (hmime : mimeTypes ≠ []) (config : Config)
    (a : Ambient) (written : ℕ → Option Bytes) (db : Database) :
    let o := (selectionTransaction config a written mimeTypes db).1
    (o.ret = true → ∃ r, Notes config a written mimeTypes db r) ∧
      ∀ r, Notes config a written mimeTypes db r →
        o.ctype = r.ctype ∧ o.contentMime = r.contentMime ∧
          ContentChosen mimeTypes o.ctype o.contentMime ∧
          ∀ config' a' written' mimeTypes' db' r', mimeTypes'.Perm mimeTypes →
            Notes config' a' written' mimeTypes' db' r' → r'.ctype = o.ctype := by
  refine ⟨exists_notes, fun r hnotes => ?_⟩
  obtain ⟨hctype, hcontent⟩ := selectionTransaction_note hnotes
  have hchosen := hnotes.chosen hmime
  rw [hctype, hcontent]
  refine ⟨rfl, rfl, hchosen, ?_⟩
  intro config' a' written' mimeTypes' db' r' hperm hnotes'
  have hmime' : mimeTypes' ≠ [] := by
    rintro rfl
    exact hmime hperm.nil_eq.symm
  have hchosen' := hnotes'.chosen hmime'
  rw [contentChosen_iff] at hchosen hchosen'
  exact hchosen'.rank_eq hchosen fun m => hperm.mem_iff

/-- Another text comes before the plain one. -/
def csvThenPlain : List CString :=
  [⟨ascii ['t', 'e', 'x', 't', '/', 'c', 's', 'v'], by decide⟩, textPlain]

/-- A row of a table, with commas and with blanks. -/
def tableRow (i : ℕ) : Option Bytes :=
  [ascii ['1', ',', '2'], ascii ['1', ' ', '2']][i]?

theorem content_chosen_csvThenPlain : ContentChosen csvThenPlain .text (some textPlain) := by
  let o := (selectionTransaction configInit (.quiet 0) tableRow csvThenPlain
    ⟨Tables.empty, some Tables.empty⟩).1
  have hctype : o.ctype = .text := by decide +kernel
  have hcontent : o.contentMime = some textPlain := by decide +kernel
  have hmime : csvThenPlain ≠ [] := List.cons_ne_nil _ _
  obtain ⟨hnotes, hall⟩ := content_chosen hmime configInit (.quiet 0) tableRow
    ⟨Tables.empty, some Tables.empty⟩
  obtain ⟨r, hr⟩ := hnotes (by decide +kernel)
  obtain ⟨-, -, hchosen, -⟩ := hall r hr
  rw [← hctype, ← hcontent]
  exact hchosen

end Swayclip
