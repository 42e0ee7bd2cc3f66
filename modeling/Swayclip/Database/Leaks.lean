import Swayclip.Database.Provenance

/-! # Data that nothing references

A row of `Data` is collected when the last row of `Mime_types` that references it is deleted. One
that never was referenced stays: it is left behind by an entry whose offer lists a type again
with other data, because the second row of the type is ignored after its data was inserted.
-/

namespace Swayclip

namespace Tables

/-- Every row of `Data` is referenced. -/
def Collected (t : Tables) : Prop := ∀ r ∈ t.data, referenced t.mimeTypes r.dataId = true

/-- The digest of all data of the content is referenced in the end: it belongs to the first
occurrence of some type, or a row references it already. -/
def Refers (t : Tables) (content : Content) : Prop :=
  ∀ e ∈ content, e.2 ≠ [] → referenced t.mimeTypes (sha256 e.2) = true ∨
    ∃ m data, content.first m = some data ∧ digestOf data = some (sha256 e.2)

theorem referenced_iff {ms : List MimeRow} {d : Digest} :
    referenced ms d = true ↔ ∃ m ∈ ms, m.dataId = some d := by
  simp [referenced]

theorem dataOf_isSome_iff {t : Tables} {d : Digest} :
    (t.dataOf d).isSome = true ↔ ∃ r ∈ t.data, r.dataId = d := by
  simp [dataOf, List.find?_isSome]

theorem collected_iff {t : Tables} :
    t.Collected ↔ ∀ d, (t.dataOf d).isSome = true → referenced t.mimeTypes d = true := by
  constructor
  · intro h d hd
    obtain ⟨r, hr, rfl⟩ := dataOf_isSome_iff.mp hd
    exact h r hr
  · exact fun h r hr => h r.dataId (dataOf_isSome_iff.mpr ⟨r, hr, rfl⟩)

theorem collected_empty : Tables.empty.Collected := by simp [Collected, Tables.empty]

/-! ## Changes -/

/-- The trigger leaves nothing behind, and does not find what was left behind before. -/
theorem collected_delEntries {t : Tables} (ids : List ℤ) :
    (t.delEntries ids).Collected ↔ t.Collected := by
  have hsplit : ∀ d, referenced t.mimeTypes d = true ↔
      referenced (t.mimeTypes.filter (fun m => m.id ∈ ids)) d = true ∨
        referenced (t.mimeTypes.filter (fun m => m.id ∉ ids)) d = true := by
    intro d
    simp only [referenced_iff, List.mem_filter, decide_eq_true_eq]
    constructor
    · rintro ⟨m, hm, hd⟩
      by_cases hid : m.id ∈ ids
      · exact Or.inl ⟨m, ⟨hm, hid⟩, hd⟩
      · exact Or.inr ⟨m, ⟨hm, hid⟩, hd⟩
    · rintro (⟨m, hm, hd⟩ | ⟨m, hm, hd⟩) <;> exact ⟨m, hm.1, hd⟩
  have hrows : (t.delEntries ids).mimeTypes = t.mimeTypes.filter (fun m => m.id ∉ ids) := by
    rw [delEntries_eq]
  rw [collected_iff, collected_iff, hrows]
  refine forall_congr' fun d => ?_
  rw [dataOf_delEntries, hsplit d]
  cases hgone : referenced (t.mimeTypes.filter (fun m => m.id ∈ ids)) d <;>
    cases hkept : referenced (t.mimeTypes.filter (fun m => m.id ∉ ids)) d <;> simp

theorem collected_change {t t' : Tables} (h : Change t t') : t'.Collected ↔ t.Collected := by
  cases h with
  | rewrite _ hmime hdata => rw [Collected, Collected, hmime, hdata]
  | delete ids => exact collected_delEntries ids

theorem collected_changes {t t' : Tables} (h : Changes t t') : t'.Collected ↔ t.Collected := by
  induction h with
  | refl => exact Iff.rfl
  | tail _ hstep ih => exact (collected_change hstep).trans ih

/-! ## New entries -/

theorem mem_storeType {t t' : Tables} {id : ℤ} (hid : t.idExists id = true) {e : CString × Bytes}
    (h : t.storeType id e = some t') {r : MimeRow} (hr : r ∈ t'.mimeTypes) :
    r ∈ t.mimeTypes ∨ t.mimeRow id e.1 = none ∧ r = ⟨id, e.1, digestOf e.2⟩ := by
  have hinsert : ∀ rows : List MimeRow, t'.mimeTypes =
      (if (t.mimeRow id e.1).isSome then rows else rows ++ [⟨id, e.1, digestOf e.2⟩]) →
      rows = t.mimeTypes →
      r ∈ t.mimeTypes ∨ t.mimeRow id e.1 = none ∧ r = ⟨id, e.1, digestOf e.2⟩ := by
    rintro rows hrows rfl
    rw [hrows] at hr
    split at hr
    · exact Or.inl hr
    · rename_i hnone
      rcases List.mem_append.mp hr with hold | hnew
      · exact Or.inl hold
      · exact Or.inr ⟨by simpa using hnone, List.mem_singleton.mp hnew⟩
  unfold storeType at h
  unfold digestOf at hinsert
  split at h <;> rename_i hempty
  · rw [newMimeType_eq hid (by simp)] at h
    obtain rfl := Option.some.inj h
    unfold digestOf
    rw [if_pos hempty] at hinsert ⊢
    exact hinsert _ rfl rfl
  · have hstored := stored_newData t id (sha256 e.2) e.2
    rw [newMimeType_eq ((hstored.idExists id).trans hid)
      (by simpa using any_newData (sha256 e.2) e.2 t)] at h
    obtain rfl := Option.some.inj h
    have hrow : (t.newData (sha256 e.2) e.2).mimeRow id e.1 = t.mimeRow id e.1 := by
      rw [mimeRow, newData_mimeTypes, mimeRow]
    unfold digestOf
    rw [if_neg hempty] at hinsert ⊢
    rw [← hrow] at hinsert ⊢
    exact hinsert _ rfl (newData_mimeTypes ..)

/-- The rows of an entry that is stored are those of the first occurrences. -/
theorem mem_storeContent {t t' : Tables} {id : ℤ} (hid : t.idExists id = true) {content : Content}
    (h : t.storeContent id content = some t') {r : MimeRow} (hr : r ∈ t'.mimeTypes) :
    r ∈ t.mimeTypes ∨ t.mimeRow id r.mimeType = none ∧
      (content.first r.mimeType).map digestOf = some r.dataId := by
  induction content generalizing t with
  | nil =>
    obtain rfl := Option.some.inj h
    exact Or.inl hr
  | cons e content ih =>
    obtain ⟨t₁, h₁, h₂⟩ := Option.bind_eq_some_iff.mp h
    obtain ⟨t₁', h₁', hs, hrow, -⟩ := storeType_spec hid e
    obtain rfl := Option.some.inj (h₁.symm.trans h₁')
    rcases ih ((hs.idExists id).trans hid) h₂ with hmem | ⟨hnone, hfirst⟩
    · rcases mem_storeType hid h₁ hmem with hold | ⟨hnone, rfl⟩
      · exact Or.inl hold
      · exact Or.inr ⟨hnone, by simp [Content.first]⟩
    · rw [hrow, Option.or_eq_none_iff] at hnone
      have hne : e.1 ≠ r.mimeType := fun he => by simp [he] at hnone
      exact Or.inr ⟨hnone.1, by simpa [Content.first, hne] using hfirst⟩

/-- A new entry leaves no data behind exactly if the digest of all data that it comes with is
referenced in the end. -/
theorem collected_addEntry_iff {t t' : Tables} (hwf : t.WF) (hcollected : t.Collected) {now : ℤ}
    {content : Content} (hadd : t.addEntry now content = some t') :
    t'.Collected ↔ t.Refers content := by
  obtain ⟨t₁, h₁, hs, ht₁⟩ := addEntry_eq t now content
  obtain rfl := Option.some.inj (ht₁.symm.trans hadd)
  have hid := idExists_newEntry t now
  have hfree : ∀ m, t.mimeRow t.nextId m = none := fun m =>
    mimeRow_of_not_exists hwf (fun e he => (id_lt_nextId he).ne) m
  -- the rows afterwards are the old ones and those of the first occurrences
  have hreferenced : ∀ d, referenced t₁.mimeTypes d = true ↔ referenced t.mimeTypes d = true ∨
      ∃ m data, content.first m = some data ∧ digestOf data = some d := by
    intro d
    simp only [referenced_iff]
    constructor
    · rintro ⟨r, hr, hd⟩
      rcases mem_storeContent hid h₁ hr with hold | ⟨-, hfirst⟩
      · exact Or.inl ⟨r, hold, hd⟩
      · obtain ⟨data, hdata, hdigest⟩ := Option.map_eq_some_iff.mp hfirst
        exact Or.inr ⟨r.mimeType, data, hdata, hdigest.trans hd⟩
    · rintro (⟨r, hr, hd⟩ | ⟨m, data, hdata, hdigest⟩)
      · obtain ⟨e, he, hrid⟩ := hwf.mimeEntry r hr
        have hne : r.id ≠ t.nextId := fun heq => (id_lt_nextId he).ne (hrid.trans heq)
        exact ⟨r, (hs.others r hne).mpr hr, hd⟩
      · have hrow := mimeRow_addEntry hwf hadd m
        rw [hdata, Option.map_some, hdigest] at hrow
        obtain ⟨r, hr, hrd⟩ := Option.map_eq_some_iff.mp hrow
        exact ⟨r, List.mem_of_find?_eq_some hr, hrd⟩
  have hmime : (t₁.takeHash t.nextId content.hash).mimeTypes = t₁.mimeTypes := rfl
  rw [collected_iff, hmime]
  constructor
  · intro h e he hne
    refine (hreferenced _).mp (h _ ?_)
    rw [dataOf_addEntry hadd, Option.isSome_or, Bool.or_eq_true]
    refine Or.inr ?_
    rw [Content.dataOf, Option.isSome_map, List.find?_isSome]
    exact ⟨e, he, by simp [hne]⟩
  · intro h d hd
    rw [hreferenced]
    rw [dataOf_addEntry hadd, Option.isSome_or, Bool.or_eq_true] at hd
    rcases hd with hold | hnew
    · exact Or.inl (collected_iff.mp hcollected d hold)
    · obtain ⟨data, hdata⟩ := Option.isSome_iff_exists.mp hnew
      obtain ⟨e, he, -⟩ := Option.map_eq_some_iff.mp hdata
      have hkey : e.2 ≠ [] ∧ sha256 e.2 = d := by simpa using List.find?_some he
      rw [← hkey.2]
      exact h e (List.mem_of_find?_eq_some he) hkey.1

/-! ## Nothing is left -/

/-- The entry has a type with the data of the digest. -/
def HasDigest (t : Tables) (id : ℤ) (d : Digest) : Prop :=
  ∃ m ∈ t.mimeTypes, m.id = id ∧ m.dataId = some d

/-- Data is there exactly as long as an entry has it. -/
structure NoLeak (t : Tables) : Prop where
  referenced : ∀ r ∈ t.data, ∃ m ∈ t.mimeTypes, m.dataId = some r.dataId
  present : ∀ m ∈ t.mimeTypes, ∀ d, m.dataId = some d → ∃ r ∈ t.data, r.dataId = d
  gone : ∀ d, (∀ e ∈ t.entries, ¬ t.HasDigest e.id d) → t.dataOf d = none

theorem noLeak_iff {t : Tables} (hwf : t.WF) : t.NoLeak ↔ t.Collected := by
  constructor
  · exact fun h r hr => referenced_iff.mpr (h.referenced r hr)
  · intro h
    refine ⟨fun r hr => referenced_iff.mp (h r hr), hwf.mimeData, fun d hno => ?_⟩
    rw [← Option.not_isSome_iff_eq_none]
    intro hd
    obtain ⟨m, hm, hmd⟩ := referenced_iff.mp (collected_iff.mp h d hd)
    obtain ⟨e, he, hid⟩ := hwf.mimeEntry m hm
    exact hno e he ⟨m, hm, hid.symm, hmd⟩

end Tables

end Swayclip
