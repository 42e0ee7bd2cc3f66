import Swayclip.Database.WellFormed

/-! # The content of an entry

The content of an event is the list of its mime types with the data received for each.
Storing it under a new id makes `get_mime_types` and `get_data` answer with the first
occurrence of each type; deleting other entries changes no answer, although rows of
`Data` are shared and collected by a trigger.
-/

namespace Swayclip

/-- Mime types and their data, in the order of the offer. -/
abbrev Content := List (CString × Bytes)

namespace Content

/-- The data of the first occurrence of a mime type. -/
def first (content : Content) (m : CString) : Option Bytes :=
  (content.find? (fun e => e.1 = m)).map Prod.snd

/-- The bytes that are hashed for the whole content. -/
def hashed (content : Content) : Bytes := content.flatMap (fun e => e.1.bytes ++ (sha256 e.2).bytes)

/-- The hash that represents the content. -/
def hash (content : Content) : Digest := sha256 content.hashed

/-- The data that the content adds for a digest, if it is not there yet. -/
def dataOf (content : Content) (d : Digest) : Option Bytes :=
  (content.find? (fun e => e.2 ≠ [] ∧ sha256 e.2 = d)).map Prod.snd

theorem first_eq_some {content : Content} {m : CString} {data : Bytes}
    (h : content.first m = some data) : (m, data) ∈ content := by
  obtain ⟨e, he, rfl⟩ := Option.map_eq_some_iff.mp h
  have hm : e.1 = m := by simpa using List.find?_some he
  exact hm ▸ List.mem_of_find?_eq_some he

theorem first_isSome {content : Content} {m : CString} :
    (content.first m).isSome = true ↔ m ∈ content.map Prod.fst := by
  simp [first, List.find?_isSome]

end Content

/-- Empty data has no row in `Data`. -/
def digestOf (data : Bytes) : Option Digest := if data = [] then none else some (sha256 data)

/-- Empty data cannot be read back. -/
def readable (data : Bytes) : Option Bytes := if data = [] then none else some data

namespace Tables

/-- The column `Data_id` for a mime type of an entry, if there is such a row. -/
def mimeRow (t : Tables) (id : ℤ) (m : CString) : Option (Option Digest) :=
  (t.mimeTypes.find? (fun r => r.id = id ∧ r.mimeType = m)).map MimeRow.dataId

/-- Storing one mime type of the entry `id` with its data. -/
def storeType (id : ℤ) (e : CString × Bytes) (t : Tables) : Option Tables :=
  if e.2 = [] then t.newMimeType id e.1 none
  else (t.newData (sha256 e.2) e.2).newMimeType id e.1 (some (sha256 e.2))

def storeContent (id : ℤ) : Content → Tables → Option Tables
  | [], t => some t
  | e :: content, t => (t.storeType id e).bind (storeContent id content)

/-- The entry answers requests with the content: its types are listed, and each yields the
data of its first occurrence unless that is empty. -/
def Holds (t : Tables) (id : ℤ) (content : Content) : Prop :=
  (∀ m, m ∈ t.getMimeTypes id ↔ m ∈ content.map Prod.fst) ∧
    ∀ m, t.getData id m = (content.first m).bind readable

theorem getData_eq (t : Tables) (id : ℤ) (m : CString) :
    t.getData id m = ((t.mimeRow id m).bind (fun d => d)).bind t.dataOf := by
  rw [getData, mimeRow]
  cases t.mimeTypes.find? (fun r => r.id = id ∧ r.mimeType = m) <;> rfl

theorem mem_getMimeTypes {t : Tables} {id : ℤ} {m : CString} :
    m ∈ t.getMimeTypes id ↔ ∃ r ∈ t.mimeTypes, r.id = id ∧ r.mimeType = m := by
  rw [getMimeTypes, (List.perm_insertionSort _ _).mem_iff, List.mem_map]
  simp only [List.mem_filter, decide_eq_true_eq, and_assoc]

theorem mimeRow_isSome {t : Tables} {id : ℤ} {m : CString} :
    (t.mimeRow id m).isSome = true ↔ m ∈ t.getMimeTypes id := by
  rw [mem_getMimeTypes, mimeRow, Option.isSome_map, List.find?_isSome]
  simp

theorem mimeRow_eq_none {t : Tables} {id : ℤ} (h : ∀ r ∈ t.mimeTypes, r.id ≠ id) (m : CString) :
    t.mimeRow id m = none := by
  rw [mimeRow, Option.map_eq_none_iff, List.find?_eq_none]
  intro r hr
  simp [h r hr]

/-- No entry, no mime types. -/
theorem mimeRow_of_not_exists {t : Tables} (h : t.WF) {id : ℤ} (hid : ∀ e ∈ t.entries, e.id ≠ id)
    (m : CString) : t.mimeRow id m = none := by
  refine mimeRow_eq_none (fun r hr he => ?_) m
  obtain ⟨e, hm, hr⟩ := h.mimeEntry r hr
  exact hid e hm (hr.trans he)

/-! ## Storing -/

theorem dataOf_newData (t : Tables) (data : Bytes) (d : Digest) :
    (t.newData (sha256 data) data).dataOf d =
      (t.dataOf d).or (if sha256 data = d then some data else none) := by
  unfold newData dataOf
  split
  · rename_i h
    split
    · rename_i hd
      obtain ⟨r, hr, he⟩ := List.any_eq_true.mp h
      have hsome : (t.data.find? (fun r => r.dataId = d)).isSome = true := by
        rw [List.find?_isSome]
        exact ⟨r, hr, by simpa [hd] using he⟩
      obtain ⟨x, hx⟩ := Option.isSome_iff_exists.mp hsome
      simp [hx]
    · simp
  · rw [List.find?_append]
    cases t.data.find? (fun r => r.dataId = d) with
    | some r => simp
    | none => by_cases hd : sha256 data = d <;> simp [hd]

theorem newData_mimeTypes (d : Digest) (data : Bytes) (t : Tables) :
    (t.newData d data).mimeTypes = t.mimeTypes := by
  unfold newData
  split <;> rfl

theorem any_newData (d : Digest) (data : Bytes) (t : Tables) :
    (t.newData d data).data.any (fun r => r.dataId = d) = true := by
  unfold newData
  split
  · assumption
  · simp

theorem entries_newMimeType {t t' : Tables} {id : ℤ} {mime : CString} {dataId : Option Digest}
    (h : t.newMimeType id mime dataId = some t') : t'.entries = t.entries := by
  unfold newMimeType at h
  split at h
  · rw [← Option.some.inj h]
  · split at h
    · rw [← Option.some.inj h]
    · cases h

/-- With the foreign keys in place, the statement succeeds and only adds a row. -/
theorem newMimeType_eq {t : Tables} {id : ℤ} {m : CString} {d : Option Digest}
    (hid : t.idExists id = true) (hd : ∀ x ∈ d, t.data.any (fun r => r.dataId = x) = true) :
    t.newMimeType id m d = some { t with mimeTypes :=
      if (t.mimeRow id m).isSome then t.mimeTypes else t.mimeTypes ++ [⟨id, m, d⟩] } := by
  have hrow : t.mimeTypes.any (fun r => r.id = id ∧ r.mimeType = m) = (t.mimeRow id m).isSome := by
    rw [Bool.eq_iff_iff, mimeRow, Option.isSome_map, List.find?_isSome]
    simp
  unfold newMimeType
  rw [hrow]
  split
  · rfl
  · rw [if_pos ⟨hid, hd⟩]

/-- What one type leaves behind. -/
structure Stored (id : ℤ) (t t' : Tables) : Prop where
  entries : t'.entries = t.entries
  seq : t'.seq = t.seq
  lastEntry : t'.lastEntry = t.lastEntry
  others : ∀ r, r.id ≠ id → (r ∈ t'.mimeTypes ↔ r ∈ t.mimeTypes)

theorem Stored.refl (id : ℤ) (t : Tables) : Stored id t t := ⟨rfl, rfl, rfl, fun _ _ => Iff.rfl⟩

theorem Stored.trans {id : ℤ} {t t' t'' : Tables} (h : Stored id t t') (h' : Stored id t' t'') :
    Stored id t t'' :=
  ⟨h'.entries.trans h.entries, h'.seq.trans h.seq, h'.lastEntry.trans h.lastEntry,
    fun r hr => (h'.others r hr).trans (h.others r hr)⟩

theorem Stored.idExists {id : ℤ} {t t' : Tables} (h : Stored id t t') (i : ℤ) :
    t'.idExists i = t.idExists i := by
  rw [Tables.idExists, Tables.idExists, h.entries]

/-- The row that `new_mime_type` adds is found unless an earlier one hides it. -/
theorem mimeRow_insert (t : Tables) (id i : ℤ) (m m' : CString) (d : Option Digest) :
    ({ t with mimeTypes :=
        if (t.mimeRow id m).isSome then t.mimeTypes else t.mimeTypes ++ [⟨id, m, d⟩] } :
          Tables).mimeRow i m' =
      (t.mimeRow i m').or (if i = id ∧ m = m' then some d else none) := by
  by_cases hrow : (t.mimeRow id m).isSome = true
  · rw [if_pos hrow]
    by_cases hi : i = id ∧ m = m'
    · obtain ⟨rfl, rfl⟩ := hi
      rw [Option.or_of_isSome hrow]
    · rw [if_neg hi, Option.or_none]
  · rw [if_neg hrow, mimeRow, mimeRow, List.find?_append]
    cases t.mimeTypes.find? (fun r => r.id = i ∧ r.mimeType = m') with
    | some r => simp
    | none =>
      by_cases hi : i = id ∧ m = m'
      · simp [hi]
      · have hi' : ¬(id = i ∧ m = m') := fun h => hi ⟨h.1.symm, h.2⟩
        simp [hi, hi']

theorem stored_insert (t : Tables) (id : ℤ) (m : CString) (d : Option Digest) :
    Stored id t { t with mimeTypes :=
      if (t.mimeRow id m).isSome then t.mimeTypes else t.mimeTypes ++ [⟨id, m, d⟩] } := by
  refine ⟨rfl, rfl, rfl, fun r hr => ?_⟩
  dsimp only
  split
  · rfl
  · rw [List.mem_append, List.mem_singleton]
    exact or_iff_left fun he => hr (by rw [he])

theorem stored_newData (t : Tables) (id : ℤ) (d : Digest) (data : Bytes) :
    Stored id t (t.newData d data) := by
  unfold newData
  split
  · exact Stored.refl id t
  · exact ⟨rfl, rfl, rfl, fun _ _ => Iff.rfl⟩

/-- One type is stored: its row and its data are there unless earlier ones hide them. -/
theorem storeType_spec {t : Tables} {id : ℤ} (hid : t.idExists id = true) (e : CString × Bytes) :
    ∃ t', t.storeType id e = some t' ∧ Stored id t t' ∧
      (∀ i m, t'.mimeRow i m =
        (t.mimeRow i m).or (if i = id ∧ e.1 = m then some (digestOf e.2) else none)) ∧
      ∀ d, t'.dataOf d =
        (t.dataOf d).or (if e.2 ≠ [] ∧ sha256 e.2 = d then some e.2 else none) := by
  unfold storeType digestOf
  by_cases hempty : e.2 = []
  · rw [if_pos hempty, if_pos hempty, newMimeType_eq hid (by simp)]
    refine ⟨_, rfl, stored_insert t id e.1 none, fun i m => mimeRow_insert .., fun d => ?_⟩
    simp [hempty, dataOf]
  · have hstored := stored_newData t id (sha256 e.2) e.2
    rw [if_neg hempty, if_neg hempty,
      newMimeType_eq ((hstored.idExists id).trans hid)
        (by simpa using any_newData (sha256 e.2) e.2 t)]
    refine ⟨_, rfl, hstored.trans (stored_insert _ id e.1 _), fun i m => ?_, fun d => ?_⟩
    · rw [mimeRow_insert, mimeRow, newData_mimeTypes, mimeRow]
    · simpa [hempty, dataOf] using dataOf_newData t e.2 d

/-- The whole content is stored: the first occurrence of each type counts, and its data is
there unless a row with the same digest was there before. -/
theorem storeContent_spec {t : Tables} {id : ℤ} (hid : t.idExists id = true) (content : Content) :
    ∃ t', t.storeContent id content = some t' ∧ Stored id t t' ∧
      (∀ i m, t'.mimeRow i m =
        (t.mimeRow i m).or (if i = id then (content.first m).map digestOf else none)) ∧
      ∀ d, t'.dataOf d = (t.dataOf d).or (content.dataOf d) := by
  induction content generalizing t with
  | nil => exact ⟨t, rfl, Stored.refl id t, by simp [Content.first], by simp [Content.dataOf]⟩
  | cons e content ih =>
    obtain ⟨t₁, h₁, hs₁, hrow₁, hdata₁⟩ := storeType_spec hid e
    obtain ⟨t₂, h₂, hs₂, hrow₂, hdata₂⟩ := ih ((hs₁.idExists id).trans hid)
    refine ⟨t₂, by rw [storeContent, h₁, Option.bind_some, h₂], hs₁.trans hs₂, ?_, ?_⟩
    · intro i m
      rw [hrow₂, hrow₁, Option.or_assoc]
      congr 1
      by_cases hi : i = id <;> by_cases hm : e.1 = m <;> simp [hi, hm, Content.first]
    · intro d
      rw [hdata₂, hdata₁, Option.or_assoc]
      congr 1
      by_cases hd : e.2 ≠ [] ∧ sha256 e.2 = d <;> simp [hd, Content.dataOf]

theorem storeType_wf {t t' : Tables} (h : t.WF) {id : ℤ} {e : CString × Bytes}
    (ht : t.storeType id e = some t') : t'.WF := by
  unfold storeType at ht
  split at ht
  · exact newMimeType_wf h ht
  · exact newMimeType_wf (newData_wf h _ _) ht

theorem storeContent_wf {t t' : Tables} (h : t.WF) {id : ℤ} {content : Content}
    (ht : t.storeContent id content = some t') : t'.WF := by
  induction content generalizing t with
  | nil => exact Option.some.inj ht ▸ h
  | cons e content ih =>
    obtain ⟨t₁, h₁, h₂⟩ := Option.bind_eq_some_iff.mp ht
    exact ih (storeType_wf h h₁) h₂

/-! ## What other statements leave alone -/

theorem Holds.congr {t t' : Tables} {id : ℤ} {content : Content} (h : t.Holds id content)
    (hmime : t'.mimeTypes = t.mimeTypes) (hdata : t'.data = t.data) : t'.Holds id content := by
  refine ⟨fun m => ?_, fun m => ?_⟩
  · rw [getMimeTypes, hmime]
    exact h.1 m
  · rw [getData_eq, mimeRow, hmime, ← mimeRow, ← h.2 m, getData_eq]
    have hof : t'.dataOf = t.dataOf := funext fun d => by rw [dataOf, hdata, dataOf]
    rw [hof]

theorem holds_congr {t t' : Tables} {id : ℤ} {content : Content}
    (hmime : t'.mimeTypes = t.mimeTypes) (hdata : t'.data = t.data) :
    t'.Holds id content ↔ t.Holds id content :=
  ⟨fun h => h.congr hmime.symm hdata.symm, fun h => h.congr hmime hdata⟩

/-- A statement that keeps the rows of an entry and finds the data they reference keeps its
content. -/
theorem Holds.of_rows {t t' : Tables} {id : ℤ} {content : Content} (h : t.Holds id content)
    (hrow : ∀ m, t'.mimeRow id m = t.mimeRow id m)
    (hdata : ∀ m d, t.mimeRow id m = some (some d) → t'.dataOf d = t.dataOf d) :
    t'.Holds id content := by
  refine ⟨fun m => ?_, fun m => ?_⟩
  · rw [← h.1 m, ← mimeRow_isSome, ← mimeRow_isSome, hrow]
  · rw [← h.2 m, getData_eq, getData_eq, hrow]
    cases hm : t.mimeRow id m with
    | none => rfl
    | some d =>
      cases d with
      | none => rfl
      | some d => exact hdata m d hm

theorem mimeRow_delEntries {t : Tables} {ids : List ℤ} {id : ℤ} (hid : id ∉ ids) (m : CString) :
    (t.delEntries ids).mimeRow id m = t.mimeRow id m := by
  rw [mimeRow, delEntries_eq, List.find?_filter, mimeRow]
  congr 2
  funext r
  by_cases hr : r.id = id <;> simp [hr, hid]

/-- A deletion removes the data of a digest or leaves it alone. -/
theorem dataOf_delEntries (t : Tables) (ids : List ℤ) (d : Digest) :
    (t.delEntries ids).dataOf d =
      if referenced (t.mimeTypes.filter (fun m => m.id ∈ ids)) d ∧
          !referenced (t.mimeTypes.filter (fun m => m.id ∉ ids)) d then none
      else t.dataOf d := by
  rw [dataOf, delEntries_eq, List.find?_filter]
  split
  · rename_i h
    rw [Option.map_eq_none_iff, List.find?_eq_none]
    intro r _
    by_cases hr : r.dataId = d
    · subst hr
      simpa [outlives] using h
    · simp [hr]
  · rename_i h
    rw [dataOf]
    congr 2
    funext r
    by_cases hr : r.dataId = d
    · subst hr
      simpa [outlives, or_iff_not_imp_left] using h
    · simp [hr]

/-- Data that a remaining row references outlives the deletion of other entries. -/
theorem dataOf_delEntries_of_row {t : Tables} {ids : List ℤ} {id : ℤ} (hid : id ∉ ids)
    {m : CString} {d : Digest} (hm : t.mimeRow id m = some (some d)) :
    (t.delEntries ids).dataOf d = t.dataOf d := by
  obtain ⟨r, hr, hd⟩ := Option.map_eq_some_iff.mp hm
  have hmem := List.mem_of_find?_eq_some hr
  have hkey : r.id = id ∧ r.mimeType = m := by simpa using List.find?_some hr
  have hkept : referenced (t.mimeTypes.filter (fun m => m.id ∉ ids)) d = true :=
    List.any_eq_true.mpr ⟨r, List.mem_filter.mpr ⟨hmem, by simp [hkey.1, hid]⟩, by simp [hd]⟩
  rw [dataOf_delEntries, if_neg]
  rintro ⟨-, hnot⟩
  rw [hkept] at hnot
  cases hnot

theorem Holds.delEntries {t : Tables} {ids : List ℤ} {id : ℤ} {content : Content}
    (h : t.Holds id content) (hid : id ∉ ids) : (t.delEntries ids).Holds id content :=
  h.of_rows (fun m => mimeRow_delEntries hid m) fun _ _ hm => dataOf_delEntries_of_row hid hm

/-- Other entries are asked with the same answers after a deletion. -/
theorem getData_delEntries {t : Tables} {ids : List ℤ} {id : ℤ} (hid : id ∉ ids) (m : CString) :
    (t.delEntries ids).getData id m = t.getData id m := by
  rw [getData_eq, getData_eq, mimeRow_delEntries hid]
  cases hm : t.mimeRow id m with
  | none => rfl
  | some d =>
    cases d with
    | none => rfl
    | some d => exact dataOf_delEntries_of_row hid hm

theorem getMimeTypes_delEntries {t : Tables} {ids : List ℤ} {id : ℤ} (hid : id ∉ ids) :
    (t.delEntries ids).getMimeTypes id = t.getMimeTypes id := by
  rw [getMimeTypes, delEntries_eq, List.filter_filter, getMimeTypes]
  congr 2
  refine List.filter_congr fun r _ => ?_
  by_cases hr : r.id = id <;> simp [hr, hid]

/-- The foreign key finds data for every digest that a row references. -/
theorem dataOf_isSome {t : Tables} (h : t.WF) {id : ℤ} {m : CString} {d : Digest}
    (hm : t.mimeRow id m = some (some d)) : (t.dataOf d).isSome = true := by
  obtain ⟨r, hr, hd⟩ := Option.map_eq_some_iff.mp hm
  obtain ⟨x, hx, hxd⟩ := h.mimeData r (List.mem_of_find?_eq_some hr) d hd
  rw [dataOf, Option.isSome_map, List.find?_isSome]
  exact ⟨x, hx, by simpa using hxd⟩

/-- Storing content under another id keeps what an entry holds. -/
theorem Holds.storeContent {t t' : Tables} (hwf : t.WF) {id i : ℤ} {content new : Content}
    (h : t.Holds i content) (hi : i ≠ id) (hid : t.idExists id = true)
    (ht : t.storeContent id new = some t') : t'.Holds i content := by
  obtain ⟨t₁, h₁, -, hrow, hdata⟩ := storeContent_spec hid new
  obtain rfl := Option.some.inj (h₁.symm.trans ht)
  refine h.of_rows (fun m => by rw [hrow, if_neg hi, Option.or_none]) fun m d hm => ?_
  rw [hdata, Option.or_of_isSome (dataOf_isSome hwf hm)]

/-- The new entry holds its content exactly when no digest of it hides other data. -/
theorem holds_storeContent_iff {t t' : Tables} {id : ℤ} {content : Content}
    (hid : t.idExists id = true) (hnew : ∀ m, t.mimeRow id m = none)
    (ht : t.storeContent id content = some t') :
    t'.Holds id content ↔ ∀ m data, content.first m = some data → data ≠ [] →
      (t.dataOf (sha256 data)).or (content.dataOf (sha256 data)) = some data := by
  obtain ⟨t₁, h₁, -, hrow, hdata⟩ := storeContent_spec hid content
  obtain rfl := Option.some.inj (h₁.symm.trans ht)
  have hmime : ∀ m, t₁.mimeRow id m = (content.first m).map digestOf := fun m => by
    rw [hrow, hnew, if_pos rfl, Option.none_or]
  have hlisted : ∀ m, m ∈ t₁.getMimeTypes id ↔ m ∈ content.map Prod.fst := fun m => by
    rw [← mimeRow_isSome, hmime, Option.isSome_map, Content.first_isSome]
  have hget : ∀ m, t₁.getData id m = (content.first m).bind readable ↔
      ∀ data, content.first m = some data → data ≠ [] →
        (t.dataOf (sha256 data)).or (content.dataOf (sha256 data)) = some data := by
    intro m
    rw [getData_eq, hmime]
    cases hm : content.first m with
    | none => simp
    | some data =>
      by_cases hempty : data = []
      · simp [hempty, digestOf, readable]
      · simp [hempty, digestOf, readable, hdata]
  exact ⟨fun h m => (hget m).mp (h.2 m), fun h => ⟨hlisted, fun m => (hget m).mpr (h m)⟩⟩

end Tables

end Swayclip
