import Swayclip.Database.Tables

/-! # The constraints of the schema

Primary keys, uniqueness and both foreign keys, as an invariant of the statements.
Deletions are given in closed form first: the rows of `Data` that survive the cascade
and its trigger are those that no deleted row referenced or a remaining row references.
-/

namespace Swayclip
open Library.Ranking

/-- What SQLite enforces on the tables. -/
structure Tables.WF (t : Tables) : Prop where
  idDistinct : Distinct Entry.id t.entries
  sortDistinct : Distinct Entry.sortIndex t.entries
  idPos : ∀ e ∈ t.entries, 0 < e.id
  idSeq : ∀ e ∈ t.entries, e.id ≤ t.seq
  seqNonneg : 0 ≤ t.seq
  hashUnique : ∀ h, t.entries.countP (fun e => e.hash = some h) ≤ 1
  mimeEntry : ∀ m ∈ t.mimeTypes, ∃ e ∈ t.entries, e.id = m.id
  mimeData : ∀ m ∈ t.mimeTypes, ∀ d, m.dataId = some d → ∃ r ∈ t.data, r.dataId = d

namespace Tables

theorem empty_wf : Tables.empty.WF where
  idDistinct := List.nodup_nil
  sortDistinct := List.nodup_nil
  idPos := by simp [empty]
  idSeq := by simp [empty]
  seqNonneg := by simp [empty]
  hashUnique := by simp [empty]
  mimeEntry := by simp [empty]
  mimeData := by simp [empty]

/-! ## Greatest keys -/

theorem le_foldr_max {κ : Type*} [LinearOrder κ] (l : List κ) (b : κ) : b ≤ l.foldr max b := by
  induction l with
  | nil => exact le_rfl
  | cons a l ih => exact ih.trans (le_max_right _ _)

theorem mem_le_foldr_max {κ : Type*} [LinearOrder κ] {l : List κ} {a : κ} (b : κ) (h : a ∈ l) :
    a ≤ l.foldr max b := by
  induction l with
  | nil => simp at h
  | cons c l ih =>
    rcases List.mem_cons.mp h with rfl | h
    · exact le_max_left _ _
    · exact (ih h).trans (le_max_right _ _)

theorem id_lt_nextId {t : Tables} {e : Entry} (h : e ∈ t.entries) : e.id < t.nextId :=
  Int.lt_add_one_of_le (mem_le_foldr_max t.seq (List.mem_map_of_mem h))

theorem seq_lt_nextId (t : Tables) : t.seq < t.nextId :=
  Int.lt_add_one_of_le (le_foldr_max _ _)

theorem sortIndex_lt_max {t : Tables} {e : Entry} (h : e ∈ t.entries) :
    e.sortIndex < t.maxSortIndex + 1 :=
  Nat.lt_succ_of_le (mem_le_foldr_max 0 (List.mem_map_of_mem h))

theorem idExists_iff {t : Tables} {id : ℤ} : t.idExists id = true ↔ ∃ e ∈ t.entries, e.id = id := by
  simp [idExists]

/-- At most one row satisfies the condition, so two rows that do are the same. -/
theorem eq_of_countP_le_one {α : Type*} {p : α → Bool} {l : List α} (h : l.countP p ≤ 1) {a b : α}
    (ha : a ∈ l) (hb : b ∈ l) (hpa : p a = true) (hpb : p b = true) : a = b := by
  rw [List.countP_eq_length_filter] at h
  have hma : a ∈ l.filter p := List.mem_filter.mpr ⟨ha, hpa⟩
  have hmb : b ∈ l.filter p := List.mem_filter.mpr ⟨hb, hpb⟩
  obtain ⟨c, hc⟩ := List.length_eq_one_iff.mp (le_antisymm h (List.length_pos_of_mem hma))
  rw [hc, List.mem_singleton] at hma hmb
  exact hma.trans hmb.symm

/-! ## Deletions in closed form -/

/-- Some row of the list has the digest as its `Data_id`. -/
def referenced (ms : List MimeRow) (d : Digest) : Bool := ms.any (fun m => m.dataId = some d)

/-- A row of `Data` outlives the deletion of `gone` when `kept` remains. -/
def outlives (gone kept : List MimeRow) (r : DataRow) : Bool :=
  !referenced gone r.dataId || referenced kept r.dataId

theorem delMimeType_data (t : Tables) (row : MimeRow) :
    (t.delMimeType row).data =
      t.data.filter (outlives [row] (t.mimeTypes.filter (fun m => m ≠ row))) := by
  obtain ⟨id, mime, dataId⟩ := row
  cases dataId with
  | none =>
    exact (List.filter_eq_self.mpr fun r _ => by simp [outlives, referenced]).symm
  | some d =>
    simp only [delMimeType]
    split
    · rename_i h
      refine (List.filter_eq_self.mpr fun r _ => ?_).symm
      by_cases hd : r.dataId = d
      · simpa [outlives, referenced, hd] using h
      · simp [outlives, referenced, Ne.symm hd]
    · rename_i h
      refine List.filter_congr fun r _ => ?_
      by_cases hd : r.dataId = d
      · simpa [outlives, referenced, hd] using h
      · simp [outlives, referenced, hd, Ne.symm hd]

/-- Two deletions in a row act on `Data` like one. -/
theorem outlives_trans {gone₁ kept₁ gone₂ kept₂ gone : List MimeRow}
    (hkept : ∀ m ∈ kept₁, m ∈ gone₂ ∨ m ∈ kept₂) (hsub : ∀ m ∈ kept₂, m ∈ kept₁)
    (hgone : ∀ m, m ∈ gone ↔ m ∈ gone₁ ∨ m ∈ gone₂) (r : DataRow) :
    (outlives gone₂ kept₂ r && outlives gone₁ kept₁ r) = outlives gone kept₂ r := by
  rw [Bool.eq_iff_iff]
  simp only [outlives, referenced, Bool.and_eq_true, Bool.or_eq_true, Bool.not_eq_true',
    List.any_eq_true, List.any_eq_false, decide_eq_true_eq, hgone]
  constructor
  · rintro ⟨h2 | h2, h1⟩
    · rcases h1 with h1 | ⟨m, hm, hd⟩
      · exact Or.inl fun m hm => hm.elim (h1 m) (h2 m)
      · exact Or.inr ⟨m, (hkept m hm).resolve_left (fun hg => h2 m hg hd), hd⟩
    · exact Or.inr h2
  · rintro (h | ⟨m, hm, hd⟩)
    · exact ⟨Or.inl fun m hm => h m (Or.inr hm), Or.inl fun m hm => h m (Or.inl hm)⟩
    · exact ⟨Or.inr ⟨m, hm, hd⟩, Or.inr ⟨m, hsub m hm, hd⟩⟩

theorem filter_outlives_nil (ms : List MimeRow) (l : List DataRow) :
    l.filter (outlives [] ms) = l :=
  List.filter_eq_self.mpr (fun _ _ => rfl)

/-- The rows of a cascade go one by one, but the outcome is that of deleting them together. -/
theorem foldl_delMimeType (rows : List MimeRow) (t : Tables) :
    rows.foldl delMimeType t =
      { t with
        mimeTypes := t.mimeTypes.filter (fun m => m ∉ rows)
        data := t.data.filter (outlives rows (t.mimeTypes.filter (fun m => m ∉ rows))) } := by
  induction rows generalizing t with
  | nil => simp [filter_outlives_nil]
  | cons row rows ih =>
    have hm : (t.delMimeType row).mimeTypes = t.mimeTypes.filter (fun m => m ≠ row) := rfl
    have hrest : (t.mimeTypes.filter (fun m => m ≠ row)).filter (fun m => m ∉ rows) =
        t.mimeTypes.filter (fun m => m ∉ row :: rows) := by
      rw [List.filter_filter]
      exact List.filter_congr fun m _ => by simp [Bool.and_comm]
    rw [List.foldl_cons, ih, hm, hrest, delMimeType_data, List.filter_filter]
    simp only [delMimeType, Tables.mk.injEq, true_and, and_true]
    refine List.filter_congr fun r _ => outlives_trans (fun m hm => ?_) (fun m hm => ?_) ?_ r
    · simp_all [or_iff_not_imp_left]
    · simp_all
    · simp

theorem delEntry_eq (t : Tables) (id : ℤ) :
    t.delEntry id =
      { t with
        entries := t.entries.filter (fun e => e.id ≠ id)
        mimeTypes := t.mimeTypes.filter (fun m => m.id ≠ id)
        data := t.data.filter (outlives (t.mimeTypes.filter (fun m => m.id = id))
          (t.mimeTypes.filter (fun m => m.id ≠ id))) } := by
  have hf : t.mimeTypes.filter (fun m => m ∉ t.mimeTypes.filter (fun m => m.id = id)) =
      t.mimeTypes.filter (fun m => m.id ≠ id) :=
    List.filter_congr fun m hm => by simp [hm]
  rw [delEntry, foldl_delMimeType]
  simp only [hf]

/-- Deleting several entries at once. -/
theorem delEntries_eq (t : Tables) (ids : List ℤ) :
    t.delEntries ids =
      { t with
        entries := t.entries.filter (fun e => e.id ∉ ids)
        mimeTypes := t.mimeTypes.filter (fun m => m.id ∉ ids)
        data := t.data.filter (outlives (t.mimeTypes.filter (fun m => m.id ∈ ids))
          (t.mimeTypes.filter (fun m => m.id ∉ ids))) } := by
  induction ids generalizing t with
  | nil => simp [delEntries, filter_outlives_nil]
  | cons id ids ih =>
    have hrest : (t.mimeTypes.filter (fun m => m.id ≠ id)).filter (fun m => m.id ∉ ids) =
        t.mimeTypes.filter (fun m => m.id ∉ id :: ids) := by
      rw [List.filter_filter]
      exact List.filter_congr fun m _ => by simp [Bool.and_comm]
    rw [delEntries, List.foldl_cons, ← delEntries, ih, delEntry_eq]
    simp only [Tables.mk.injEq, true_and, and_true, hrest]
    refine ⟨?_, ?_⟩
    · rw [List.filter_filter]
      exact List.filter_congr fun e _ => by simp [Bool.and_comm]
    · rw [List.filter_filter]
      refine List.filter_congr fun r _ => outlives_trans (fun m hm => ?_) (fun m hm => ?_) ?_ r
      · simp_all [or_iff_not_imp_left]
      · simp_all
      · intro m
        by_cases hm : m.id = id <;> simp [hm]

/-! ## The statements keep the constraints -/

theorem newEntry_wf {t : Tables} (h : t.WF) (now : ℤ) : (t.newEntry now).WF where
  idDistinct := by
    simp only [newEntry, Distinct, List.map_append, List.map_cons, List.map_nil]
    refine List.nodup_append.mpr ⟨h.idDistinct, List.nodup_singleton _, ?_⟩
    simp only [List.mem_map, List.mem_singleton, forall_eq]
    rintro _ ⟨e, he, rfl⟩
    exact (id_lt_nextId he).ne
  sortDistinct := by
    simp only [newEntry, Distinct, List.map_append, List.map_cons, List.map_nil]
    refine List.nodup_append.mpr ⟨h.sortDistinct, List.nodup_singleton _, ?_⟩
    simp only [List.mem_map, List.mem_singleton, forall_eq]
    rintro _ ⟨e, he, rfl⟩
    exact (sortIndex_lt_max he).ne
  idPos := by
    have hpos : 0 < t.nextId := lt_of_le_of_lt h.seqNonneg (seq_lt_nextId t)
    simpa [newEntry, or_imp, forall_and, hpos] using h.idPos
  idSeq := by
    simp only [newEntry, List.mem_append, List.mem_singleton]
    rintro e (he | rfl)
    · exact (id_lt_nextId he).le
    · exact le_rfl
  seqNonneg := (lt_of_le_of_lt h.seqNonneg (seq_lt_nextId t)).le
  hashUnique d := by simpa [newEntry, List.countP_append] using h.hashUnique d
  mimeEntry m hm := by
    obtain ⟨e, he, hid⟩ := h.mimeEntry m hm
    exact ⟨e, List.mem_append_left _ he, hid⟩
  mimeData := h.mimeData

theorem mem_newData {t : Tables} {dataId : Digest} {data : Bytes} {r : DataRow} (h : r ∈ t.data) :
    r ∈ (t.newData dataId data).data := by
  unfold newData
  split
  · exact h
  · exact List.mem_append_left _ h

theorem newData_wf {t : Tables} (h : t.WF) (dataId : Digest) (data : Bytes) :
    (t.newData dataId data).WF := by
  have hdata : ∀ m ∈ t.mimeTypes, ∀ d, m.dataId = some d →
      ∃ r ∈ (t.newData dataId data).data, r.dataId = d := by
    intro m hm d hd
    obtain ⟨r, hr, he⟩ := h.mimeData m hm d hd
    exact ⟨r, mem_newData hr, he⟩
  unfold newData at hdata ⊢
  split at hdata
  · rename_i hdup
    simpa [hdup] using h
  · rename_i hdup
    rw [if_neg hdup]
    exact { h with mimeData := hdata }

theorem newMimeType_wf {t t' : Tables} (h : t.WF) {id : ℤ} {mime : CString}
    {dataId : Option Digest} (ht : t.newMimeType id mime dataId = some t') : t'.WF := by
  unfold newMimeType at ht
  split at ht
  · exact Option.some.inj ht ▸ h
  · split at ht
    · rename_i hfk
      obtain rfl := Option.some.inj ht
      obtain ⟨e, he, hid⟩ := idExists_iff.mp hfk.1
      refine { h with mimeEntry := ?_, mimeData := ?_ }
      · intro m hm
        rcases List.mem_append.mp hm with hm | hm
        · exact h.mimeEntry m hm
        · obtain rfl := List.mem_singleton.mp hm
          exact ⟨e, he, hid⟩
      · intro m hm d hd
        rcases List.mem_append.mp hm with hm | hm
        · exact h.mimeData m hm d hd
        · obtain rfl := List.mem_singleton.mp hm
          simpa using hfk.2 d hd
    · cases ht

theorem delEntries_wf {t : Tables} (h : t.WF) (ids : List ℤ) : (t.delEntries ids).WF := by
  rw [delEntries_eq]
  refine ⟨h.idDistinct.filter _, h.sortDistinct.filter _,
    fun e he => h.idPos e (List.mem_of_mem_filter he),
    fun e he => h.idSeq e (List.mem_of_mem_filter he), h.seqNonneg, ?_, ?_, ?_⟩
  · exact fun d => (List.filter_sublist.countP_le).trans (h.hashUnique d)
  · intro m hm
    obtain ⟨hm, hids⟩ := List.mem_filter.mp hm
    obtain ⟨e, he, hid⟩ := h.mimeEntry m hm
    exact ⟨e, List.mem_filter.mpr ⟨he, by simpa [hid] using hids⟩, hid⟩
  · intro m hm d hd
    obtain ⟨r, hr, he⟩ := h.mimeData m (List.mem_of_mem_filter hm) d hd
    refine ⟨r, List.mem_filter.mpr ⟨hr, ?_⟩, he⟩
    have hkept : referenced (t.mimeTypes.filter (fun m => m.id ∉ ids)) r.dataId = true :=
      List.any_eq_true.mpr ⟨m, hm, by simp [hd, he]⟩
    rw [outlives, hkept, Bool.or_true]

/-- An update that leaves every id alone keeps the constraints if it keeps the sort indices
and the hashes unique. -/
theorem mapEntries_wf {t : Tables} (h : t.WF) {f : Entry → Entry} (hid : ∀ e, (f e).id = e.id)
    (hsort : Distinct Entry.sortIndex (t.entries.map f))
    (hhash : ∀ d, (t.entries.map f).countP (fun e => e.hash = some d) ≤ 1) :
    ({ t with entries := t.entries.map f } : Tables).WF := by
  have hids : (t.entries.map f).map Entry.id = t.entries.map Entry.id := by simp [hid]
  refine { h with
    idDistinct := by simpa only [Distinct, hids] using h.idDistinct
    sortDistinct := hsort
    idPos := by simpa [hid] using h.idPos
    idSeq := by simpa [hid] using h.idSeq
    hashUnique := hhash
    mimeEntry := fun m hm => ?_ }
  obtain ⟨e, he, hm⟩ := h.mimeEntry m hm
  exact ⟨f e, List.mem_map_of_mem he, (hid e).trans hm⟩

theorem map_sortDistinct {t : Tables} (h : t.WF) {f : Entry → Entry}
    (hsort : ∀ e, (f e).sortIndex = e.sortIndex) : Distinct Entry.sortIndex (t.entries.map f) := by
  have hsorts : (t.entries.map f).map Entry.sortIndex = t.entries.map Entry.sortIndex := by
    simp [hsort]
  simpa only [Distinct, hsorts] using h.sortDistinct

theorem map_hashUnique {t : Tables} (h : t.WF) {f : Entry → Entry}
    (hhash : ∀ e, (f e).hash = e.hash) (d : Digest) :
    (t.entries.map f).countP (fun e => e.hash = some d) ≤ 1 := by
  simpa [List.countP_map, Function.comp_def, hhash] using h.hashUnique d

theorem updateEntry_wf {t : Tables} (h : t.WF) (now : ℤ) (pinned : Option Bool) (id : ℤ) :
    (t.updateEntry now pinned id).WF :=
  mapEntries_wf h (fun _ => by split <;> rfl) (map_sortDistinct h fun _ => by split <;> rfl)
    (map_hashUnique h fun _ => by split <;> rfl)

theorem saveAttribute_wf {t : Tables} (h : t.WF) (key : AttributeKey) (value : CString) (id : ℤ) :
    (t.saveAttribute key value id).WF :=
  mapEntries_wf h (fun _ => by split <;> rfl) (map_sortDistinct h fun _ => by split <;> rfl)
    (map_hashUnique h fun _ => by split <;> rfl)

@[simp] theorem rehash_id (value : Option Digest) (id : Option ℤ) (hash : Option Digest)
    (e : Entry) : (rehash value id hash e).id = e.id := by
  unfold rehash
  split <;> rfl

@[simp] theorem rehash_sortIndex (value : Option Digest) (id : Option ℤ) (hash : Option Digest)
    (e : Entry) : (rehash value id hash e).sortIndex = e.sortIndex := by
  unfold rehash
  split <;> rfl

theorem rehash_hash (value : Option Digest) (id : Option ℤ) (hash : Option Digest) (e : Entry) :
    (rehash value id hash e).hash = value ∨ (rehash value id hash e).hash = e.hash := by
  unfold rehash
  split
  · exact Or.inl rfl
  · exact Or.inr rfl

theorem saveEntryHash_wf {t t' : Tables} (h : t.WF) {value : Option Digest} {id : Option ℤ}
    {hash : Option Digest} (ht : t.saveEntryHash value id hash = some t') : t'.WF := by
  unfold saveEntryHash at ht
  split at ht
  · rename_i hunique
    obtain rfl := Option.some.inj ht
    refine mapEntries_wf h (rehash_id value id hash)
      (map_sortDistinct h (rehash_sortIndex value id hash)) fun d => ?_
    by_cases hd : value = some d
    · exact hd ▸ hunique.resolve_left (by simp [hd])
    · -- a row that carries another hash afterwards carried it before
      rw [List.countP_map]
      refine (List.countP_mono_left fun e _ he => ?_).trans (h.hashUnique d)
      simp only [Function.comp_apply, decide_eq_true_eq] at he ⊢
      rcases rehash_hash value id hash e with hv | hv
      · exact absurd (hv.symm.trans he) hd
      · exact hv.symm.trans he
  · cases ht

theorem updateSortIndex_wf {t : Tables} (h : t.WF) (id : ℤ) : (t.updateSortIndex id).WF := by
  refine mapEntries_wf h (fun _ => by split <;> rfl) ?_
    (map_hashUnique h fun _ => by split <;> rfl)
  rw [Distinct, List.map_map]
  refine (List.nodup_map_iff_inj_on h.idDistinct.nodup).mpr fun a ha b hb hab => ?_
  have hla := sortIndex_lt_max ha
  have hlb := sortIndex_lt_max hb
  simp only [Function.comp_apply] at hab
  split at hab <;> split at hab
  · rename_i h1 h2
    exact h.idDistinct.eq ha hb (h1.trans h2.symm)
  · exact absurd hab hlb.ne'
  · exact absurd hab hla.ne
  · exact h.sortDistinct.eq ha hb hab

end Tables

end Swayclip
