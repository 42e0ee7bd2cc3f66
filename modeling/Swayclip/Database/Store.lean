import Swayclip.Database.Content
import Swayclip.Database.History

/-! # Adding an entry and moving one to the front

The two ways in which a selection event changes the tables, as one operation each, with
what they do to the constraints, the history and the content of entries.
-/

namespace Swayclip
open Library.Ranking

namespace Tables

/-- Give the hash to one entry and take it away from any other. -/
def takeHash (id : ℤ) (hash : Digest) (t : Tables) : Tables :=
  { t with entries := t.entries.map (fun e =>
      if e.id = id then { e with hash := some hash }
      else if e.hash = some hash then { e with hash := none } else e) }

/-- The tables after a new entry with the content has been committed. -/
def addEntry (now : ℤ) (content : Content) (t : Tables) : Option Tables :=
  ((t.newEntry now).storeContent t.nextId content).map (takeHash t.nextId content.hash)

/-- The tables after an entry has been moved to the front. -/
def moveEntry (now id : ℤ) (t : Tables) : Tables :=
  (t.updateSortIndex id).updateEntry now none id

/-! ## The hash -/

theorem entryHashPos_eq_some {t : Tables} {hash : Digest} {id pos : ℤ}
    (h : t.entryHashPos hash = some (id, pos)) :
    ∃ e ∈ t.entries, e.hash = some hash ∧ e.id = id ∧
      pos = (rank Entry.sortIndex t.entries e.sortIndex : ℤ) := by
  obtain ⟨e, he, hpair⟩ := Option.map_eq_some_iff.mp h
  obtain ⟨rfl, rfl⟩ := Prod.mk.inj hpair
  exact ⟨e, List.mem_of_find?_eq_some he, by simpa using List.find?_some he, rfl, rfl⟩

theorem entryHashPos_eq_none {t : Tables} {hash : Digest} :
    t.entryHashPos hash = none ↔ ∀ e ∈ t.entries, e.hash ≠ some hash := by
  simp [entryHashPos]

/-- The row in progress has no hash, and pushes every other row back by one. -/
theorem entryHashPos_newEntry (t : Tables) (now : ℤ) (hash : Digest) :
    (t.newEntry now).entryHashPos hash =
      (t.entryHashPos hash).map (fun p => (p.1, p.2 + 1)) := by
  have hrank : ∀ e ∈ t.entries, rank Entry.sortIndex (t.newEntry now).entries e.sortIndex =
      rank Entry.sortIndex t.entries e.sortIndex + 1 := by
    intro e he
    simp [newEntry, rank, List.countP_append, sortIndex_lt_max he]
  have hfind : (t.newEntry now).entries.find? (fun e => e.hash = some hash) =
      t.entries.find? (fun e => e.hash = some hash) := by
    simp [newEntry, List.find?_append]
  rw [entryHashPos, hfind, entryHashPos, Option.map_map]
  cases hf : t.entries.find? (fun e => e.hash = some hash) with
  | none => rfl
  | some e => simp [hrank e (List.mem_of_find?_eq_some hf)]

/-- Clearing a hash always succeeds. -/
theorem saveEntryHash_clear (t : Tables) (hash : Digest) :
    t.saveEntryHash none none (some hash) = some { t with entries := t.entries.map (fun e =>
      if e.hash = some hash then { e with hash := none } else e) } := by
  simp [saveEntryHash, rehash]

/-- A row that is found by its id gets the hash exactly when no other row has it. -/
theorem saveEntryHash_take_iff {t t' : Tables} (hd : Distinct Entry.id t.entries) {id : ℤ}
    (hid : t.idExists id = true) (hash : Digest) :
    t.saveEntryHash (some hash) (some id) none = some t' ↔
      (∀ e ∈ t.entries, e.id ≠ id → e.hash ≠ some hash) ∧ t' = t.takeHash id hash := by
  obtain ⟨x, hx, hxid⟩ := idExists_iff.mp hid
  have hmap : ∀ e, rehash (some hash) (some id) none e =
      if e.id = id then { e with hash := some hash } else e := by
    intro e
    simp [rehash, eq_comm]
  have hrows : (∀ e ∈ t.entries, e.id ≠ id → e.hash ≠ some hash) →
      t.entries.map (rehash (some hash) (some id) none) = (t.takeHash id hash).entries := by
    intro hno
    refine List.map_congr_left fun e he => ?_
    rw [hmap]
    by_cases h : e.id = id
    · simp [h]
    · simp [h, hno e he h]
  have hcount : (t.entries.map (rehash (some hash) (some id) none)).countP
      (fun e => e.hash = some hash) ≤ 1 ↔ ∀ e ∈ t.entries, e.id ≠ id → e.hash ≠ some hash := by
    rw [List.countP_map]
    constructor
    · intro hle e he hne hh
      have := eq_of_countP_le_one hle hx he (by simp [hmap, hxid]) (by simp [hmap, hne, hh])
      exact hne (this ▸ hxid)
    · intro hno
      have hcong : t.entries.countP ((fun e : Entry => decide (e.hash = some hash)) ∘
          rehash (some hash) (some id) none) = t.entries.countP (fun e => e.id = id) := by
        refine List.countP_congr fun e he => ?_
        by_cases h : e.id = id <;> simp [hmap, h, hno e he]
      rw [hcong]
      have := List.nodup_iff_count_le_one.mp hd id
      rwa [List.count_eq_countP, List.countP_map] at this
  unfold saveEntryHash
  simp only [reduceCtorEq, false_or, hcount]
  by_cases hno : ∀ e ∈ t.entries, e.id ≠ id → e.hash ≠ some hash
  · rw [if_pos hno, hrows hno]
    exact ⟨fun h => ⟨hno, (Option.some.inj h).symm⟩, fun h => congrArg some h.2.symm⟩
  · rw [if_neg hno]
    exact ⟨nofun, fun h => absurd h.1 hno⟩

theorem takeHash_entry (id : ℤ) (hash : Digest) (e : Entry) :
    let f := fun e : Entry => if e.id = id then { e with hash := some hash }
      else if e.hash = some hash then { e with hash := none } else e
    (f e).id = e.id ∧ (f e).sortIndex = e.sortIndex ∧ (f e).pinned = e.pinned := by
  dsimp only
  split
  · exact ⟨rfl, rfl, rfl⟩
  · split <;> exact ⟨rfl, rfl, rfl⟩

theorem takeHash_wf {t : Tables} (h : t.WF) (id : ℤ) (hash : Digest) : (t.takeHash id hash).WF := by
  refine mapEntries_wf h (fun e => (takeHash_entry id hash e).1)
    (map_sortDistinct h fun e => (takeHash_entry id hash e).2.1) fun d => ?_
  rw [List.countP_map]
  by_cases hd : d = hash
  · -- only the row with the id carries the hash now
    subst hd
    refine (List.countP_mono_left (q := fun e => e.id = id) fun e _ he => ?_).trans ?_
    · by_contra hne
      have hne' : e.id ≠ id := by simpa using hne
      by_cases hh : e.hash = some d <;> simp [hne', hh] at he
    · have := List.nodup_iff_count_le_one.mp h.idDistinct id
      rwa [List.count_eq_countP, List.countP_map] at this
  · refine (List.countP_mono_left fun e _ he => ?_).trans (h.hashUnique d)
    by_cases hid : e.id = id
    · simp [hid, Ne.symm hd] at he
    · by_cases hh : e.hash = some hash
      · simp [hid, hh] at he
      · simpa [hid, hh] using he

theorem view_takeHash (t : Tables) (id : ℤ) (hash : Digest) : (t.takeHash id hash).view = t.view :=
  view_map (fun e => (takeHash_entry id hash e).2.1) (fun e => (takeHash_entry id hash e).1)
    fun e => (takeHash_entry id hash e).2.2

/-- The code clears the hash first in some modes; the outcome is the same. -/
theorem takeHash_clear (t : Tables) (id : ℤ) (hash : Digest) :
    ({ t with entries := t.entries.map (fun e =>
      if e.hash = some hash then { e with hash := none } else e) } : Tables).takeHash id hash =
        t.takeHash id hash := by
  simp only [takeHash, List.map_map, mk.injEq, true_and, and_true]
  refine List.map_congr_left fun e _ => ?_
  by_cases hid : e.id = id <;> by_cases hh : e.hash = some hash <;> simp [hid, hh]

/-! ## Adding -/

theorem idExists_newEntry (t : Tables) (now : ℤ) :
    (t.newEntry now).idExists t.nextId = true := by
  simp [idExists, newEntry]

/-- Adding an entry never fails. -/
theorem addEntry_eq (t : Tables) (now : ℤ) (content : Content) :
    ∃ t₁, (t.newEntry now).storeContent t.nextId content = some t₁ ∧
      Stored t.nextId (t.newEntry now) t₁ ∧
      t.addEntry now content = some (t₁.takeHash t.nextId content.hash) := by
  obtain ⟨t₁, h₁, hs, -, -⟩ := storeContent_spec (idExists_newEntry t now) content
  exact ⟨t₁, h₁, hs, by rw [addEntry, h₁, Option.map_some]⟩

/-- The row in progress, with its types and data. -/
theorem stored_inProgress {t t₁ : Tables} {now : ℤ} {content : Content}
    (h : (t.newEntry now).storeContent t.nextId content = some t₁) :
    Stored t.nextId (t.newEntry now) t₁ := by
  obtain ⟨t₂, h₂, hs, -⟩ := addEntry_eq t now content
  obtain rfl := Option.some.inj (h₂.symm.trans h)
  exact hs

section Add
variable {t t' : Tables} {now : ℤ} {content : Content}

theorem addEntry_wf (h : t.WF) (ht : t.addEntry now content = some t') : t'.WF := by
  obtain ⟨t₁, h₁, -, hadd⟩ := addEntry_eq t now content
  obtain rfl := Option.some.inj (hadd.symm.trans ht)
  exact takeHash_wf (storeContent_wf (newEntry_wf h now) h₁) _ _

theorem view_addEntry (h : t.WF) (ht : t.addEntry now content = some t') :
    t'.view = (t.nextId, false) :: t.view := by
  obtain ⟨t₁, -, hs, hadd⟩ := addEntry_eq t now content
  obtain rfl := Option.some.inj (hadd.symm.trans ht)
  rw [view_takeHash, ← view_newEntry h now, view, history, hs.entries, view, history]

/-- The entries afterwards: the old ones, less the hash, and the new one. -/
theorem entries_addEntry (ht : t.addEntry now content = some t') :
    t'.entries = t.entries.map (fun e =>
        if e.hash = some content.hash then { e with hash := none } else e) ++
      [⟨t.nextId, t.maxSortIndex + 1, now, now, false, some content.hash, ⟨none, none⟩⟩] := by
  obtain ⟨t₁, -, hs, hadd⟩ := addEntry_eq t now content
  obtain rfl := Option.some.inj (hadd.symm.trans ht)
  simp only [takeHash, hs.entries, newEntry, List.map_append, List.map_cons, List.map_nil, if_true]
  congr 1
  exact List.map_congr_left fun e he => by rw [if_neg (id_lt_nextId he).ne]

theorem holds_addEntry_of_ne (h : t.WF) (ht : t.addEntry now content = some t') {i : ℤ}
    {old : Content} (hi : i ≠ t.nextId) (hold : t.Holds i old) : t'.Holds i old := by
  obtain ⟨t₁, h₁, -, hadd⟩ := addEntry_eq t now content
  obtain rfl := Option.some.inj (hadd.symm.trans ht)
  have hnew : (t.newEntry now).Holds i old := hold.congr rfl rfl
  exact (hnew.storeContent (newEntry_wf h now) hi (idExists_newEntry t now) h₁).congr rfl rfl

/-- The new entry holds its content exactly when no digest of it hides other data. -/
theorem holds_addEntry_iff (h : t.WF) (ht : t.addEntry now content = some t') :
    t'.Holds t.nextId content ↔ ∀ m data, content.first m = some data → data ≠ [] →
      (t.dataOf (sha256 data)).or (content.dataOf (sha256 data)) = some data := by
  obtain ⟨t₁, h₁, -, hadd⟩ := addEntry_eq t now content
  obtain rfl := Option.some.inj (hadd.symm.trans ht)
  have hfree : ∀ m, (t.newEntry now).mimeRow t.nextId m = none := fun m =>
    mimeRow_of_not_exists h (fun e he => (id_lt_nextId he).ne) m
  have hiff := holds_storeContent_iff (idExists_newEntry t now) hfree h₁
  exact ⟨fun hh => hiff.mp (hh.congr rfl rfl), fun hh => (hiff.mpr hh).congr rfl rfl⟩

/-- The new entry has a row for each type of the content, with the digest of its data. -/
theorem mimeRow_addEntry (h : t.WF) (ht : t.addEntry now content = some t') (m : CString) :
    t'.mimeRow t.nextId m = (content.first m).map digestOf := by
  obtain ⟨t₁, h₁, -, hrow, -⟩ := storeContent_spec (idExists_newEntry t now) content
  have hadd : t.addEntry now content = some (t₁.takeHash t.nextId content.hash) := by
    rw [addEntry, h₁, Option.map_some]
  obtain rfl := Option.some.inj (hadd.symm.trans ht)
  have hfree : (t.newEntry now).mimeRow t.nextId m = none :=
    mimeRow_of_not_exists h (fun e he => (id_lt_nextId he).ne) m
  have hnew := hrow t.nextId m
  rwa [hfree, if_pos rfl, Option.none_or] at hnew

theorem mimeRow_addEntry_of_ne (ht : t.addEntry now content = some t') {i : ℤ} (hi : i ≠ t.nextId)
    (m : CString) : t'.mimeRow i m = t.mimeRow i m := by
  obtain ⟨t₁, h₁, -, hrow, -⟩ := storeContent_spec (idExists_newEntry t now) content
  have hadd : t.addEntry now content = some (t₁.takeHash t.nextId content.hash) := by
    rw [addEntry, h₁, Option.map_some]
  obtain rfl := Option.some.inj (hadd.symm.trans ht)
  have hnew := hrow i m
  rwa [if_neg hi, Option.or_none] at hnew

theorem dataOf_addEntry (ht : t.addEntry now content = some t') (d : Digest) :
    t'.dataOf d = (t.dataOf d).or (content.dataOf d) := by
  obtain ⟨t₁, h₁, -, hdata⟩ := storeContent_spec (idExists_newEntry t now) content
  have hadd : t.addEntry now content = some (t₁.takeHash t.nextId content.hash) := by
    rw [addEntry, h₁, Option.map_some]
  obtain rfl := Option.some.inj (hadd.symm.trans ht)
  exact hdata.2 d

end Add

/-! ## Moving -/

theorem moveEntry_wf {t : Tables} (h : t.WF) (now id : ℤ) : (t.moveEntry now id).WF :=
  updateEntry_wf (updateSortIndex_wf h id) now none id

theorem view_moveEntry {t : Tables} (h : t.WF) (now : ℤ) {e : Entry} (he : e ∈ t.entries) :
    (t.moveEntry now e.id).view = (e.id, e.pinned) :: t.view.filter (fun r => r.1 ≠ e.id) := by
  rw [moveEntry, view_updateEntry, view_updateSortIndex h he, List.map_congr_left (g := id)]
  · exact List.map_id _
  · intro r _
    simp

end Tables

end Swayclip
