import Swayclip.Database.Provenance
import Swayclip.Library.Archive

/-! # The tables as an archive

What is filed under the id of an entry are its types with their data. Whatever happens to the
rows, the sharing of data between entries included, makes a later archive of the tables.
-/

namespace Swayclip
open Library

namespace Tables

/-- The types of the entry, each with what a request for its data finds. -/
def content (t : Tables) (id : ℤ) (m : CString) : Option (Option Bytes) :=
  (t.mimeRow id m).map fun d => d.bind t.dataOf

def archive (t : Tables) : Archive ℤ (CString → Option (Option Bytes)) :=
  ⟨fun id => if t.idExists id then some (t.content id) else none, t.nextId⟩

section Content
variable {t t' : Tables} {id : ℤ}

theorem record_archive (hid : t.idExists id = true) :
    t.archive.record id = some (t.content id) := if_pos hid

theorem record_archive_eq_none : t.archive.record id = none ↔ t.idExists id = false := by
  cases hid : t.idExists id <;> simp [archive, hid]

theorem content_isSome (m : CString) :
    (t.content id m).isSome = true ↔ m ∈ t.getMimeTypes id := by
  rw [content, Option.isSome_map, mimeRow_isSome]

theorem content_join (m : CString) : (t.content id m).bind (fun data => data) = t.getData id m := by
  rw [content, getData_eq]
  cases t.mimeRow id m <;> rfl

/-- The content is the same where its rows are, and the data that they reference. -/
theorem content_of_rows (hrow : ∀ m, t'.mimeRow id m = t.mimeRow id m)
    (hdata : ∀ m d, t.mimeRow id m = some (some d) → t'.dataOf d = t.dataOf d) :
    t'.content id = t.content id := by
  funext m
  rw [content, hrow, content]
  cases hm : t.mimeRow id m with
  | none => rfl
  | some d =>
    cases d with
    | none => rfl
    | some d => exact congrArg some (hdata m d hm)

end Content

/-! ## Every change makes a later archive -/

section Later
variable {t t' : Tables}

theorem id_lt_nextId_of_exists {id : ℤ} (hid : t.idExists id = true) : id < t.nextId := by
  obtain ⟨e, he, rfl⟩ := idExists_iff.mp hid
  exact id_lt_nextId he

/-- No id exceeds the counter, so that the counter decides alone which one is next. -/
def Counted (t : Tables) : Prop := ∀ e ∈ t.entries, e.id ≤ t.seq

theorem Counted.nextId (h : t.Counted) : t.nextId = t.seq + 1 := by
  have hall : ∀ ids : List ℤ, (∀ id ∈ ids, id ≤ t.seq) → ids.foldr max t.seq ≤ t.seq := by
    intro ids hids
    induction ids with
    | nil => exact le_rfl
    | cons id ids ih =>
      exact max_le (hids id List.mem_cons_self)
        (ih fun i hi => hids i (List.mem_cons_of_mem _ hi))
  have hle := hall (t.entries.map Entry.id) (List.forall_mem_map.mpr h)
  have hlt := seq_lt_nextId t
  rw [Tables.nextId] at hlt ⊢
  omega

theorem Counted.change (h : t.Counted) (hc : Change t t') : t'.Counted := by
  intro e' he'
  obtain ⟨e, he, hid, -⟩ := hc.mem he'
  rw [← hid, hc.seq]
  exact h e he

theorem later_delEntries (h : t.Counted) (ids : List ℤ) :
    t.archive.Later (t.delEntries ids).archive := by
  have hdelete : Change t (t.delEntries ids) := .delete ids
  refine .of_keeps (le_of_eq ?_) fun id => ?_
  · change t.nextId = (t.delEntries ids).nextId
    rw [h.nextId, (h.change hdelete).nextId, hdelete.seq]
  · by_cases hid : id ∈ ids
    · refine Or.inr (record_archive_eq_none.mpr (Bool.eq_false_iff.mpr fun hex => ?_))
      obtain ⟨e, he, rfl⟩ := idExists_iff.mp hex
      rw [delEntries_eq, List.mem_filter] at he
      simp [hid] at he
    · have hsame : (t.delEntries ids).content id = t.content id :=
        content_of_rows (mimeRow_delEntries hid) fun _ _ hm => dataOf_delEntries_of_row hid hm
      refine Or.inl ?_
      simp only [archive, idExists_delEntries hid, hsame]

theorem Change.later (hc : Change t t') (h : t.Counted) : t.archive.Later t'.archive := by
  cases hc with
  | rewrite hrows hmime hdata hseq =>
    have hids : t'.entries.map Entry.id = t.entries.map Entry.id := by
      have hfst := congrArg (List.map Prod.fst) hrows
      rwa [List.map_map, List.map_map] at hfst
    have hexists : ∀ id, t'.idExists id = t.idExists id := by
      intro id
      rw [Bool.eq_iff_iff, idExists_iff, idExists_iff]
      have hmem := congrArg (fun ids : List ℤ => id ∈ ids) hids
      simpa only [List.mem_map, eq_iff_iff] using hmem
    have hcontent : ∀ id, t'.content id = t.content id := fun id =>
      content_of_rows (fun m => by rw [mimeRow, hmime, mimeRow])
        fun _ d _ => by rw [dataOf, hdata, dataOf]
    refine .of_keeps (le_of_eq ?_) fun id => Or.inl ?_
    · change t.nextId = t'.nextId
      rw [Tables.nextId, Tables.nextId, hids, hseq]
    · simp only [archive, hexists, hcontent]
  | delete ids => exact later_delEntries h ids

theorem Changes.later (hc : Changes t t') (h : t.Counted) :
    t.archive.Later t'.archive ∧ t'.Counted := by
  induction hc with
  | refl => exact ⟨.refl _, h⟩
  | tail _ hstep ih => exact ⟨ih.1.trans (hstep.later ih.2), ih.2.change hstep⟩

/-- A new entry may share data with old ones, but it does not touch it. -/
theorem later_addEntry (h : t.WF) {now : ℤ} {content : Content}
    (hadd : t.addEntry now content = some t') : t.archive.Later t'.archive := by
  have hexists : ∀ id, id ≠ t.nextId → t'.idExists id = t.idExists id := by
    intro id hid
    rw [Bool.eq_iff_iff, idExists_iff, idExists_iff, ← mem_view_fst, ← mem_view_fst,
      view_addEntry h hadd, List.map_cons, List.mem_cons, or_iff_right hid]
  refine .of_files ?_ fun id hid => ?_
  · have hmem : t.nextId ∈ t'.view.map Prod.fst := by
      rw [view_addEntry h hadd]
      exact List.mem_cons_self
    exact (id_lt_nextId_of_exists (idExists_iff.mpr (mem_view_fst.mp hmem))).le
  · have hsame : t'.content id = t.content id := by
      refine content_of_rows (mimeRow_addEntry_of_ne hadd hid) fun m d hm => ?_
      rw [dataOf_addEntry hadd, Option.or_of_isSome (dataOf_isSome h hm)]
    simp only [archive, hexists id hid, hsame]

end Later

end Tables

end Swayclip
