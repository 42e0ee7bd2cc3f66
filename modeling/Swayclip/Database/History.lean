import Swayclip.Database.WellFormed

/-! # The history as an ordered list

What a client sees of the store is a list of ids with their pin flags, front first.
Each statement acts on it as a list operation; the sort indices, which the statements
assign and compare, do not show.
-/

namespace Swayclip
open Library.Ranking

namespace Tables

/-- The history that `get_history` shows, reduced to ids and pin flags. -/
def view (t : Tables) : List (ℤ × Bool) := t.history.map (fun e => (e.id, e.pinned))

theorem mem_history {t : Tables} {e : Entry} : e ∈ t.history ↔ e ∈ t.entries := mem_sortDesc

theorem mem_getEntries {t : Tables} {start n : ℤ} {e : Entry} (he : e ∈ t.getEntries start n) :
    e ∈ t.entries := by
  unfold getEntries at he
  refine mem_history.mp (List.mem_of_mem_drop (i := start.toNat) ?_)
  split at he
  · exact he
  · exact List.mem_of_mem_take he

theorem history_idDistinct {t : Tables} (h : t.WF) : Distinct Entry.id t.history :=
  h.idDistinct.perm (sortDesc_perm _ _).symm

theorem view_fst_nodup {t : Tables} (h : t.WF) : (t.view.map Prod.fst).Nodup := by
  rw [view, List.map_map]
  exact history_idDistinct h

theorem mem_view_fst {t : Tables} {id : ℤ} :
    id ∈ t.view.map Prod.fst ↔ ∃ e ∈ t.entries, e.id = id := by
  simp [view, mem_history]

theorem idExists_of_entries {t t' : Tables} {f : Entry → Entry}
    (hentries : t'.entries = t.entries.map f) (hid : ∀ e, (f e).id = e.id) (id : ℤ) :
    t'.idExists id = t.idExists id := by
  rw [idExists, hentries, List.any_map, idExists]
  simp only [Function.comp_def, hid]

theorem idExists_delEntries {t : Tables} {ids : List ℤ} {id : ℤ} (h : id ∉ ids) :
    (t.delEntries ids).idExists id = t.idExists id := by
  rw [Bool.eq_iff_iff, idExists_iff, delEntries_eq, idExists_iff]
  refine exists_congr fun e => ?_
  rw [List.mem_filter, and_assoc]
  refine and_congr_right fun _ => and_iff_right_of_imp ?_
  rintro rfl
  simpa using h

/-! ## The rows in history order -/

/-- The trigger gives a new row the greatest sort index, so it comes first. -/
theorem history_newEntry {t : Tables} (h : t.WF) (now : ℤ) :
    (t.newEntry now).history =
      ⟨t.nextId, t.maxSortIndex + 1, now, now, false, none, ⟨none, none⟩⟩ :: t.history :=
  sortDesc_append_top h.sortDistinct (fun _ hb => sortIndex_lt_max hb)

theorem history_delEntries {t : Tables} (h : t.WF) (ids : List ℤ) :
    (t.delEntries ids).history = t.history.filter (fun e => e.id ∉ ids) := by
  rw [history, delEntries_eq]
  exact sortDesc_filter h.sortDistinct _

/-- Rows rewritten in place stay where they are. -/
theorem history_map {t : Tables} {f : Entry → Entry}
    (hsort : ∀ e, (f e).sortIndex = e.sortIndex) :
    ({ t with entries := t.entries.map f } : Tables).history = t.history.map f :=
  sortDesc_map (fun e _ => hsort e)

theorem history_updateSortIndex {t : Tables} (h : t.WF) {e : Entry} (he : e ∈ t.entries) :
    (t.updateSortIndex e.id).history =
      { e with sortIndex := t.maxSortIndex + 1 } :: t.history.filter (fun x => x.id ≠ e.id) := by
  have hiff : ∀ x ∈ t.entries, x.id = e.id ↔ x.sortIndex = e.sortIndex := fun x hx =>
    ⟨fun hid => h.idDistinct.eq hx he hid ▸ rfl, fun hs => h.sortDistinct.eq hx he hs ▸ rfl⟩
  have hraise := sortDesc_raise (f := fun x => { x with sortIndex := t.maxSortIndex + 1 })
    h.sortDistinct he (fun b hb => sortIndex_lt_max hb)
  rw [history, updateSortIndex]
  refine Eq.trans ?_ (hraise.trans ?_)
  · exact congrArg _ (List.map_congr_left fun x hx => by simp only [hiff x hx])
  · congr 1
    exact List.filter_congr fun x hx => by simp only [ne_eq, hiff x (mem_sortDesc.mp hx)]

/-! ## The same on ids and pin flags -/

theorem view_newEntry {t : Tables} (h : t.WF) (now : ℤ) :
    (t.newEntry now).view = (t.nextId, false) :: t.view := by
  rw [view, history_newEntry h, List.map_cons, view]

theorem view_delEntries {t : Tables} (h : t.WF) (ids : List ℤ) :
    (t.delEntries ids).view = t.view.filter (fun r => r.1 ∉ ids) := by
  rw [view, history_delEntries h, view, List.filter_map]
  rfl

theorem view_clear {t : Tables} (h : t.WF) : t.clear.view = [] := by
  rw [clear, view_delEntries h]
  refine List.filter_eq_nil_iff.mpr fun r hr => ?_
  obtain ⟨e, he, hid⟩ := mem_view_fst.mp (List.mem_map_of_mem hr)
  simpa using ⟨e, he, hid⟩

theorem view_map {t : Tables} {f : Entry → Entry} (hsort : ∀ e, (f e).sortIndex = e.sortIndex)
    (hid : ∀ e, (f e).id = e.id) (hpin : ∀ e, (f e).pinned = e.pinned) :
    ({ t with entries := t.entries.map f } : Tables).view = t.view := by
  rw [view, history_map hsort, List.map_map, view]
  exact List.map_congr_left fun e _ => by simp [hid, hpin]

theorem view_updateEntry (t : Tables) (now : ℤ) (pinned : Option Bool) (id : ℤ) :
    (t.updateEntry now pinned id).view =
      t.view.map (fun r => if r.1 = id then (r.1, pinned.getD r.2) else r) := by
  rw [view, updateEntry, history_map (fun e => by split <;> rfl), view, List.map_map, List.map_map]
  refine List.map_congr_left fun e _ => ?_
  by_cases he : e.id = id <;> simp [he]

theorem view_updateSortIndex {t : Tables} (h : t.WF) {e : Entry} (he : e ∈ t.entries) :
    (t.updateSortIndex e.id).view = (e.id, e.pinned) :: t.view.filter (fun r => r.1 ≠ e.id) := by
  rw [view, history_updateSortIndex h he, List.map_cons, view, List.filter_map]
  rfl

/-- The position that `entry_hash_pos` reports is the place in the view. -/
theorem view_getElem_rank {t : Tables} (h : t.WF) {e : Entry} (he : e ∈ t.entries) :
    t.view[rank Entry.sortIndex t.entries e.sortIndex]? = some (e.id, e.pinned) := by
  rw [view, List.getElem?_map, history, sortDesc_getElem_rank h.sortDistinct he]
  rfl

end Tables

end Swayclip
