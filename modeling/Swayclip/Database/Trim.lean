import Swayclip.Database.History

/-! # Trimming the history

Which rows `trim` removes, in closed form. The statement ranks the unpinned entries by
id, while the history is shown by sort index; the two agree on what to keep exactly when
no unpinned entry beyond the limit has moved ahead of one within it.
-/

namespace Swayclip
open Library.Ranking

namespace Tables

/-- The entries that compete for the places within the limit. -/
def unpinned (t : Tables) : List Entry := t.entries.filter (fun e => !e.pinned)

theorem mem_unpinned {t : Tables} {e : Entry} :
    e ∈ t.unpinned ↔ e ∈ t.entries ∧ e.pinned = false := by
  simp [unpinned]

/-- An entry that a trim to `offset` entries leaves alone. -/
def Survives (t : Tables) (offset : ℕ) (e : Entry) : Prop :=
  e.pinned = true ∨ rank Entry.id t.unpinned e.id < offset

theorem mem_trimIds {t : Tables} (h : t.WF) {offset : ℕ} {e : Entry} (he : e ∈ t.entries) :
    e.id ∈ t.trimIds offset ↔ ¬ t.Survives offset e := by
  have hd : Distinct Entry.id t.unpinned := h.idDistinct.filter _
  rw [trimIds, List.mem_map, Survives, not_or, not_lt, Bool.not_eq_true]
  constructor
  · rintro ⟨b, hb, hid⟩
    obtain ⟨hb, hr⟩ := (mem_drop_sortDesc hd).mp hb
    obtain ⟨hbt, hpin⟩ := mem_unpinned.mp hb
    obtain rfl := h.idDistinct.eq hbt he hid
    exact ⟨hpin, hr⟩
  · rintro ⟨hpin, hr⟩
    exact ⟨e, (mem_drop_sortDesc hd).mpr ⟨mem_unpinned.mpr ⟨he, hpin⟩, hr⟩, rfl⟩

/-- The ids that the callback is invoked with. -/
theorem mem_trim_ids {t : Tables} (h : t.WF) {offset : ℕ} {id : ℤ} :
    id ∈ (t.trim offset).1 ↔ ∃ e ∈ t.entries, e.id = id ∧ ¬ t.Survives offset e := by
  simp only [trim, List.mem_filter, List.mem_map, decide_eq_true_eq]
  constructor
  · rintro ⟨⟨e, he, rfl⟩, hid⟩
    exact ⟨e, he, rfl, (mem_trimIds h he).mp hid⟩
  · rintro ⟨e, he, rfl, hs⟩
    exact ⟨⟨e, he, rfl⟩, (mem_trimIds h he).mpr hs⟩

theorem trim_ids_nodup {t : Tables} (h : t.WF) (offset : ℕ) : (t.trim offset).1.Nodup :=
  List.Nodup.filter _ h.idDistinct

theorem trim_tables (t : Tables) (offset : ℕ) :
    (t.trim offset).2 = t.delEntries (t.trim offset).1 := rfl

theorem trim_of_short {t : Tables} {offset : ℕ} (h : t.entries.length ≤ offset) :
    (t.trim offset).2 = t := by
  have hnone : t.trimIds offset = [] := by
    rw [trimIds, List.map_eq_nil_iff, List.drop_eq_nil_iff,
      (sortDesc_perm Entry.id _).length_eq]
    exact (List.length_filter_le ..).trans h
  rw [trim, hnone]
  simp only [List.not_mem_nil, decide_false, List.filter_false]
  rfl

theorem mem_trim_entries {t : Tables} (h : t.WF) {offset : ℕ} {e : Entry} :
    e ∈ (t.trim offset).2.entries ↔ e ∈ t.entries ∧ t.Survives offset e := by
  rw [trim_tables, delEntries_eq, List.mem_filter, and_congr_right_iff]
  intro he
  rw [decide_eq_true_eq, mem_trim_ids h, not_exists]
  constructor
  · intro hn
    by_contra hs
    exact hn e ⟨he, rfl, hs⟩
  · rintro hs b ⟨hb, hid, hnot⟩
    exact hnot (h.idDistinct.eq hb he hid ▸ hs)

theorem trim_wf {t : Tables} (h : t.WF) (offset : ℕ) : (t.trim offset).2.WF :=
  delEntries_wf h _

/-! ## By id -/

/-- The entry with the id is there after a trim to `offset` entries. -/
def SurvivesId (t : Tables) (offset : ℕ) (id : ℤ) : Prop :=
  ∃ e ∈ t.entries, e.id = id ∧ t.Survives offset e

instance (t : Tables) (offset : ℕ) (e : Entry) : Decidable (t.Survives offset e) :=
  inferInstanceAs (Decidable (e.pinned = true ∨ rank Entry.id t.unpinned e.id < offset))

instance (t : Tables) (offset : ℕ) (id : ℤ) : Decidable (t.SurvivesId offset id) :=
  inferInstanceAs (Decidable (∃ e ∈ t.entries, e.id = id ∧ t.Survives offset e))

theorem idExists_trim {t : Tables} (h : t.WF) {offset : ℕ} {id : ℤ} :
    (t.trim offset).2.idExists id = true ↔ t.SurvivesId offset id := by
  rw [idExists_iff, SurvivesId]
  refine exists_congr fun e => ?_
  rw [mem_trim_entries h, and_assoc]
  exact and_congr_right fun _ => and_comm

/-- What is not reported is still there. -/
theorem not_mem_trim_iff {t : Tables} (h : t.WF) {offset : ℕ} {id : ℤ}
    (hid : t.idExists id = true) : id ∉ (t.trim offset).1 ↔ t.SurvivesId offset id := by
  obtain ⟨e, he, rfl⟩ := idExists_iff.mp hid
  rw [mem_trim_ids h]
  constructor
  · intro hnot
    exact ⟨e, he, rfl, not_not.mp fun hs => hnot ⟨e, he, rfl, hs⟩⟩
  · rintro ⟨x, hx, hxid, hs⟩ ⟨y, hy, hyid, hnot⟩
    obtain rfl := h.idDistinct.eq hx he hxid
    obtain rfl := h.idDistinct.eq hy hx hyid
    exact hnot hs

/-- Only ids and pin flags decide. -/
theorem survivesId_map {t t' : Tables} {f : Entry → Entry} (hentries : t'.entries = t.entries.map f)
    (hid : ∀ e, (f e).id = e.id) (hpin : ∀ e, (f e).pinned = e.pinned) {offset : ℕ} {id : ℤ} :
    t'.SurvivesId offset id ↔ t.SurvivesId offset id := by
  have hrank : ∀ k, rank Entry.id t'.unpinned k = rank Entry.id t.unpinned k := by
    intro k
    rw [unpinned, hentries, List.filter_map, rank, List.countP_map, unpinned, rank]
    simp only [Function.comp_def, hid, hpin]
  simp only [SurvivesId, Survives, hentries, List.mem_map, exists_exists_and_eq_and, hid, hpin,
    hrank]

/-- A new entry survives wherever there is room for one. -/
theorem survivesId_newest {t : Tables} (h : t.WF) {e : Entry} (he : e ∈ t.entries)
    (hpin : e.pinned = false)
    (hnewest : ∀ x ∈ t.entries, x.id ≤ e.id) {offset : ℕ} :
    t.SurvivesId offset e.id ↔ 0 < offset := by
  have hrank : ∀ k, e.id ≤ k → rank Entry.id t.unpinned k = 0 := by
    intro k hk
    refine List.countP_eq_zero.mpr fun x hx => ?_
    have := hnewest x (mem_unpinned.mp hx).1
    simp only [decide_eq_true_eq]
    omega
  constructor
  · rintro ⟨x, hx, hxid, hs⟩
    obtain rfl := h.idDistinct.eq hx he hxid
    rw [Survives, hpin, hrank _ le_rfl] at hs
    simpa using hs
  · intro hpos
    exact ⟨e, he, rfl, Or.inr (by rw [hrank _ le_rfl]; exact hpos)⟩

/-! ## Against the order of the history -/

/-- The entries to keep when the history order decides. -/
def firstShown (t : Tables) (offset : ℕ) : List Entry :=
  t.entries.filter (fun e => e.pinned || e ∈ (t.history.filter (fun e => !e.pinned)).take offset)

/-- What a trim should do: keep the pinned entries and those shown first, and report each of
the others once. -/
def TrimsByHistory (t : Tables) (offset : ℕ) (ids : List ℤ) (t' : Tables) : Prop :=
  t'.entries = t.firstShown offset ∧ ids.Nodup ∧
    ∀ id, id ∈ ids ↔ ∃ e ∈ t.entries, e.id = id ∧ e ∉ t.firstShown offset

/-- No unpinned entry beyond the limit, by id, is shown ahead of one within it. -/
def OldestShownLast (t : Tables) (offset : ℕ) : Prop :=
  ∀ a ∈ t.unpinned, ∀ b ∈ t.unpinned, rank Entry.id t.unpinned a.id < offset →
    offset ≤ rank Entry.id t.unpinned b.id → b.sortIndex < a.sortIndex

instance (t : Tables) (offset : ℕ) : Decidable (t.OldestShownLast offset) :=
  inferInstanceAs (Decidable (∀ a ∈ t.unpinned, ∀ b ∈ t.unpinned,
    rank Entry.id t.unpinned a.id < offset → offset ≤ rank Entry.id t.unpinned b.id →
      b.sortIndex < a.sortIndex))

theorem mem_firstShown {t : Tables} (h : t.WF) {offset : ℕ} {e : Entry} (he : e ∈ t.entries) :
    e ∈ t.firstShown offset ↔
      e.pinned = true ∨ e ∈ (sortDesc Entry.sortIndex t.unpinned).take offset := by
  rw [firstShown, history, ← sortDesc_filter h.sortDistinct, ← unpinned, List.mem_filter]
  simp [he]

theorem oldestShownLast_iff {t : Tables} (h : t.WF) {offset : ℕ} :
    t.OldestShownLast offset ↔ ∀ e ∈ t.entries, t.Survives offset e ↔ e ∈ t.firstShown offset := by
  have hid : Distinct Entry.id t.unpinned := h.idDistinct.filter _
  have hsort : Distinct Entry.sortIndex t.unpinned := h.sortDistinct.filter _
  rw [OldestShownLast, ← take_sortDesc_iff hid hsort offset]
  constructor
  · intro hsame e he
    rw [mem_firstShown h he, Survives]
    cases hpin : e.pinned
    · have hu : e ∈ t.unpinned := mem_unpinned.mpr ⟨he, hpin⟩
      rw [← hsame e hu, mem_take_sortDesc hid]
      simp [hu]
    · simp
  · intro hall e hu
    obtain ⟨he, hpin⟩ := mem_unpinned.mp hu
    have := hall e he
    rw [mem_firstShown h he, Survives, hpin] at this
    rw [mem_take_sortDesc hid]
    simpa [hu] using this

/-- The trim follows the history exactly when age and position do not conflict. -/
theorem trimsByHistory_trim_iff {t : Tables} (h : t.WF) (offset : ℕ) :
    t.TrimsByHistory offset (t.trim offset).1 (t.trim offset).2 ↔ t.OldestShownLast offset := by
  rw [oldestShownLast_iff h]
  constructor
  · rintro ⟨hentries, -, -⟩ e he
    rw [← hentries, mem_trim_entries h]
    simp [he]
  · intro hall
    have hids : ∀ id, id ∈ (t.trim offset).1 ↔
        ∃ e ∈ t.entries, e.id = id ∧ e ∉ t.firstShown offset := by
      intro id
      rw [mem_trim_ids h]
      refine exists_congr fun e => and_congr_right fun he => ?_
      rw [hall e he]
    refine ⟨?_, trim_ids_nodup h offset, hids⟩
    rw [trim_tables, delEntries_eq, firstShown]
    refine List.filter_congr fun e he => ?_
    have hkept : e ∈ (t.trim offset).2.entries ↔ e ∈ t.firstShown offset := by
      rw [mem_trim_entries h, hall e he]
      exact and_iff_right he
    rw [trim_tables, delEntries_eq, firstShown, List.mem_filter, List.mem_filter] at hkept
    rw [Bool.eq_iff_iff]
    simpa [he] using hkept

end Tables

end Swayclip
