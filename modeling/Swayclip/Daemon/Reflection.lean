import Swayclip.Daemon.Dedup
import Swayclip.Daemon.Manager
import Swayclip.Database.Archive

/-! # The history in the tables

How a history is kept in the tables: the order in the sort indices, the contents in rows that may
share data, and what copies find in the hashes, which stand for contents as long as no two of them
have the same. Each operation on the history is what the statements do to the rows.
-/

namespace Swayclip
open Library.Ranking Tables

/-! ## Origins as a function -/

/-- The content that the entry was created with. -/
def originOf (origins : Origins) (id : ℤ) : Content :=
  ((origins.find? fun r => r.1 = id).map Prod.snd).getD []

section Origins
variable {origins : Origins} {id n : ℤ} {content : Content}

theorem originOf_eq (hd : Distinct Prod.fst origins) (hmem : (id, content) ∈ origins) :
    originOf origins id = content := by
  cases hfind : origins.find? fun r => r.1 = id with
  | none => exact absurd (decide_eq_true rfl) (List.find?_eq_none.mp hfind _ hmem)
  | some r =>
    have hr : r.1 = id := by simpa using List.find?_some hfind
    obtain rfl := hd.eq (List.mem_of_find?_eq_some hfind) hmem hr
    rw [originOf, hfind]
    rfl

theorem Tables.Traced.originOf {P : Entry → Content → Prop} {t : Tables} (h : Traced P origins t)
    {e : Entry} (he : e ∈ t.entries) : P e (originOf origins e.id) := by
  obtain ⟨content, hmem, hP⟩ := h.each e he
  rwa [Swayclip.originOf_eq h.distinct hmem]

theorem originOf_append_of_ne (hid : id ≠ n) :
    originOf (origins ++ [(n, content)]) id = originOf origins id := by
  have hnone : [(n, content)].find? (fun r => r.1 = id) = none := by simp [Ne.symm hid]
  rw [originOf, List.find?_append, hnone, Option.or_none, originOf]

end Origins

/-! ## Histories and tables -/

/-- What an entry is in the history. -/
def Item.of (origins : Origins) (e : Entry) : Item :=
  ⟨e.id, e.pinned, originOf origins e.id, e.hash.isSome⟩

namespace Shelf

/-- The tables keep the history; `C` are the contents and `D` the data that are ever copied. -/
structure Reflects (C : Set Content) (D : Set Bytes) (origins : Origins) (t : Tables)
    (h : Shelf) : Prop where
  wf : t.WF
  intact : Intact D origins t
  hashed : Traced (fun e content => content ∈ C ∧ ∀ d, e.hash = some d → d = content.hash) origins t
  items : h.items = t.history.map (Item.of origins)
  next : h.next = t.nextId
  last : h.last = t.lastEntry
  lastPos : ∀ id, t.lastEntry = some id → 0 < id

section Reflects
variable {C : Set Content} {D : Set Bytes} {origins : Origins} {t t' : Tables} {h : Shelf}

theorem reflects_empty : Shelf.empty.Reflects C D [] Tables.empty :=
  ⟨empty_wf, intact_empty D, traced_empty _, rfl, rfl, rfl, fun _ hnone => by cases hnone⟩

theorem Reflects.mem (hr : h.Reflects C D origins t) {x : Item} :
    x ∈ h.items ↔ ∃ e ∈ t.entries, Item.of origins e = x := by
  rw [hr.items, List.mem_map]
  exact exists_congr fun e => and_congr_left fun _ => mem_history

theorem Reflects.has_iff (hr : h.Reflects C D origins t) {id : ℤ} :
    h.Has id ↔ t.idExists id = true := by
  rw [Has, idExists_iff]
  constructor
  · rintro ⟨x, hx, rfl⟩
    obtain ⟨e, he, rfl⟩ := hr.mem.mp hx
    exact ⟨e, he, rfl⟩
  · rintro ⟨e, he, rfl⟩
    exact ⟨Item.of origins e, hr.mem.mpr ⟨e, he, rfl⟩, rfl⟩

theorem Reflects.view (hr : h.Reflects C D origins t) :
    t.view = h.items.map fun x => (x.id, x.pinned) := by
  rw [hr.items, List.map_map]
  rfl

theorem Reflects.holds (hr : h.Reflects C D origins t) {x : Item} (hx : x ∈ h.items) :
    t.Holds x.id x.content := by
  obtain ⟨e, he, rfl⟩ := hr.mem.mp hx
  exact hr.intact.traced.originOf he

/-! ## Rows that are rewritten -/

theorem Reflects.sameRows (hr : h.Reflects C D origins t) (hrows : t'.SameRows t)
    (hlast : ∀ id, t'.lastEntry = some id → 0 < id) :
    ({ h with last := t'.lastEntry } : Shelf).Reflects C D origins t' := by
  have hc : Changes t t' := .single hrows.change
  refine ⟨hrows.wf hr.wf, hr.intact.changes hc, Traced.changes (R := fun hash content =>
    content ∈ C ∧ ∀ d, hash = some d → d = content.hash) hr.hashed hc, ?_, ?_, rfl, hlast⟩
  · rw [Tables.history, hrows.entries, ← Tables.history]
    exact hr.items
  · rw [Tables.nextId, hrows.entries, hrows.seq, ← Tables.nextId]
    exact hr.next

theorem Reflects.map (hr : h.Reflects C D origins t) {f : Entry → Entry} {g : Item → Item}
    (hsort : ∀ e, (f e).sortIndex = e.sortIndex) (hid : ∀ e, (f e).id = e.id)
    (hhash : ∀ e, (f e).hash = e.hash) (hwf : ({ t with entries := t.entries.map f } : Tables).WF)
    (hg : ∀ e ∈ t.entries, Item.of origins (f e) = g (Item.of origins e)) :
    ({ h with items := h.items.map g } : Shelf).Reflects C D origins
      { t with entries := t.entries.map f } := by
  have hids : (t.entries.map f).map Entry.id = t.entries.map Entry.id := by
    rw [List.map_map]
    exact List.map_congr_left fun e _ => hid e
  have hc : Changes t { t with entries := t.entries.map f } := by
    refine .single (.rewrite ?_ rfl rfl rfl)
    rw [List.map_map]
    exact List.map_congr_left fun e _ => by rw [Function.comp_apply, hid, hhash]
  refine ⟨hwf, hr.intact.changes hc, Traced.changes (R := fun hash content =>
    content ∈ C ∧ ∀ d, hash = some d → d = content.hash) hr.hashed hc, ?_, ?_, hr.last, hr.lastPos⟩
  · rw [history_map hsort, List.map_map]
    change h.items.map g = _
    rw [hr.items, List.map_map]
    exact List.map_congr_left fun e he => (hg e (mem_history.mp he)).symm
  · refine hr.next.trans ?_
    rw [Tables.nextId, Tables.nextId, hids]

theorem map_items_id (h : Shelf) : ({ h with items := h.items.map fun x => x } : Shelf) = h := by
  rw [List.map_id']

theorem Reflects.mapAttributes (hr : h.Reflects C D origins t) (id : ℤ)
    (f : Attributes → Attributes) : h.Reflects C D origins (mapAttributes id f t) := by
  have hmap := hr.map
    (f := fun e => if e.id = id then { e with attributes := f e.attributes } else e)
    (g := fun x => x) (fun e => by split <;> rfl) (fun e => by split <;> rfl)
    (fun e => by split <;> rfl) (mapAttributes_wf hr.wf id f) fun e _ => by split <;> rfl
  rwa [map_items_id] at hmap

theorem Reflects.updateEntry (hr : h.Reflects C D origins t) (now : ℤ) {pinned : Option Bool}
    {id : ℤ} {f : Bool → Bool}
    (hf : ∀ e ∈ t.entries, e.id = id → pinned.getD e.pinned = f e.pinned) :
    (h.setPinned id f).Reflects C D origins (t.updateEntry now pinned id) := by
  refine hr.map (f := fun e => if e.id = id then
      { e with updateTime := now, pinned := pinned.getD e.pinned } else e)
    (fun e => by split <;> rfl) (fun e => by split <;> rfl) (fun e => by split <;> rfl)
    (updateEntry_wf hr.wf now pinned id) fun e he => ?_
  by_cases hid : e.id = id
  · simp only [Item.of, hid, if_true, hf e he hid]
  · simp only [Item.of, hid, if_false]

theorem setPinned_id (h : Shelf) (id : ℤ) : h.setPinned id (fun old => old) = h := by
  have hsame : ∀ x : Item, (if x.id = id then { x with pinned := x.pinned } else x) = x :=
    fun x => by split <;> rfl
  simp only [setPinned, hsame, List.map_id']

/-- The update time does not show. -/
theorem Reflects.refresh (hr : h.Reflects C D origins t) (now id : ℤ) :
    h.Reflects C D origins (t.updateEntry now none id) := by
  have hupdated := @Reflects.updateEntry C D origins t h hr now none id (fun old => old)
    fun _ _ _ => rfl
  rwa [setPinned_id] at hupdated

/-! ## Rows that are deleted -/

theorem Reflects.delEntries (hr : h.Reflects C D origins t) (ids : List ℤ) :
    ({ h with items := h.items.filter fun x => x.id ∉ ids } : Shelf).Reflects C D origins
      (t.delEntries ids) := by
  have hdelete : Change t (t.delEntries ids) := .delete ids
  have hc : Changes t (t.delEntries ids) := .single hdelete
  have hwf := delEntries_wf hr.wf ids
  have hlast : (t.delEntries ids).lastEntry = t.lastEntry := by rw [delEntries_eq]
  refine ⟨hwf, hr.intact.changes hc, Traced.changes (R := fun hash content =>
    content ∈ C ∧ ∀ d, hash = some d → d = content.hash) hr.hashed hc, ?_, ?_, ?_, ?_⟩
  · rw [history_delEntries hr.wf]
    change h.items.filter _ = _
    rw [hr.items, List.filter_map]
    rfl
  · rw [Counted.nextId hwf.idSeq, hdelete.seq, ← Counted.nextId hr.wf.idSeq]
    exact hr.next
  · rw [hlast]
    exact hr.last
  · rw [hlast]
    exact hr.lastPos

theorem Reflects.remove (hr : h.Reflects C D origins t) (id : ℤ) :
    (h.remove id).Reflects C D origins (t.delEntries [id]) := by
  have hdeleted := hr.delEntries [id]
  simp only [List.mem_singleton] at hdeleted
  exact hdeleted

theorem Reflects.clear (hr : h.Reflects C D origins t) :
    ({ h with items := [] } : Shelf).Reflects C D origins
      (t.delEntries (t.entries.map Entry.id)) := by
  have hdeleted := hr.delEntries (t.entries.map Entry.id)
  have hnone : (h.items.filter fun x => x.id ∉ t.entries.map Entry.id) = [] := by
    refine List.filter_eq_nil_iff.mpr fun x hx => ?_
    obtain ⟨e, he, rfl⟩ := hr.mem.mp hx
    simpa using ⟨e, he, rfl⟩
  rwa [hnone] at hdeleted

theorem countP_newer (hr : h.Reflects C D origins t) (id : ℤ) :
    h.items.countP (fun y => !y.pinned && id < y.id) = rank Entry.id t.unpinned id := by
  rw [hr.items, List.countP_map, rank, unpinned, List.countP_filter, Tables.history,
    (sortDesc_perm Entry.sortIndex t.entries).countP_eq]
  refine List.countP_congr fun e _ => ?_
  rw [Function.comp_apply, Bool.and_eq_true, Bool.and_eq_true, and_comm]
  exact and_congr_left fun _ => decide_eq_true_iff.trans decide_eq_true_iff.symm

theorem Reflects.trim (hr : h.Reflects C D origins t) (n : ℕ) :
    (h.trim n).Reflects C D origins (t.trim n).2 := by
  have hdeleted := hr.delEntries (t.trim n).1
  have hsame : (h.items.filter fun x => x.id ∉ (t.trim n).1) = (h.trim n).items := by
    refine List.filter_congr fun x hx => ?_
    obtain ⟨e, he, rfl⟩ := hr.mem.mp hx
    rw [countP_newer hr, Bool.eq_iff_iff]
    have hmem : e.id ∉ (t.trim n).1 ↔ t.Survives n e := by
      have hkept : e ∈ (t.trim n).2.entries ↔ e ∈ t.entries ∧ t.Survives n e :=
        mem_trim_entries hr.wf
      rw [trim_tables, delEntries_eq, List.mem_filter] at hkept
      simpa [he] using hkept
    rw [decide_eq_true_eq]
    refine hmem.trans ?_
    rw [Bool.or_eq_true]
    exact or_congr_right decide_eq_true_iff.symm
  rw [hsame] at hdeleted
  exact hdeleted

/-! ## Rows that come to the front -/

theorem Reflects.find_id (hr : h.Reflects C D origins t) {e : Entry} (he : e ∈ t.entries) :
    h.items.find? (fun x => x.id = e.id) = some (Item.of origins e) := by
  cases hfind : h.items.find? fun x => x.id = e.id with
  | none =>
    have hnot := List.find?_eq_none.mp hfind _ (hr.mem.mpr ⟨e, he, rfl⟩)
    exact absurd (decide_eq_true rfl) hnot
  | some x =>
    obtain ⟨y, hy, rfl⟩ := hr.mem.mp (List.mem_of_find?_eq_some hfind)
    have hid : (Item.of origins y).id = e.id := by simpa using List.find?_some hfind
    rw [hr.wf.idDistinct.eq hy he hid]

/-- The statements leave the setting to `set`. -/
theorem Reflects.moveEntry (hr : h.Reflects C D origins t) (now : ℤ) {e : Entry}
    (he : e ∈ t.entries) :
    ({ h.raise e.id with last := h.last } : Shelf).Reflects C D origins (t.moveEntry now e.id) := by
  have hids : (t.updateSortIndex e.id).entries.map Entry.id = t.entries.map Entry.id := by
    rw [updateSortIndex, List.map_map]
    exact List.map_congr_left fun x _ => by rw [Function.comp_apply]; split <;> rfl
  have hc : Changes t (t.updateSortIndex e.id) := .single (change_updateSortIndex t e.id)
  have hraised : ({ h.raise e.id with last := h.last } : Shelf).Reflects C D origins
      (t.updateSortIndex e.id) := by
    refine ⟨updateSortIndex_wf hr.wf e.id, hr.intact.changes hc,
      Traced.changes (R := fun hash content =>
        content ∈ C ∧ ∀ d, hash = some d → d = content.hash) hr.hashed hc, ?_, ?_, hr.last,
      hr.lastPos⟩
    · rw [history_updateSortIndex hr.wf he, List.map_cons]
      change (h.items.find? fun x => x.id = e.id).toList ++
        h.items.filter (fun x => x.id ≠ e.id) = _
      rw [hr.find_id he, hr.items, List.filter_map]
      rfl
    · refine hr.next.trans ?_
      rw [Tables.nextId, Tables.nextId, hids]
      rfl
  exact hraised.refresh now e.id

/-! ## New rows -/

/-- With no two contents of one hash, the rows that carry it are those that copies find. -/
theorem Reflects.holds_iff (hr : h.Reflects C D origins t) (hC : Set.InjOn Content.hash C)
    {content : Content} (hcontent : content ∈ C) {e : Entry} (he : e ∈ t.entries) :
    Item.holds content (Item.of origins e) = true ↔ e.hash = some content.hash := by
  obtain ⟨horigin, hhash⟩ := hr.hashed.originOf he
  rw [Item.holds, Bool.and_eq_true, decide_eq_true_eq]
  constructor
  · rintro ⟨hfound, hsame⟩
    obtain ⟨d, hd⟩ := Option.isSome_iff_exists.mp hfound
    have hcarried : d = (originOf origins e.id).hash := hhash d hd
    rw [hd, hcarried]
    exact congrArg (fun c : Content => some c.hash) hsame
  · intro hcarried
    refine ⟨Option.isSome_iff_exists.mpr ⟨_, hcarried⟩, hC horigin hcontent ?_⟩
    exact (hhash _ hcarried).symm

theorem Reflects.addEntry (hr : h.Reflects C D origins t) (hC : Set.InjOn Content.hash C)
    (hD : Set.InjOn sha256 D) {content : Content} (hcontent : content ∈ C)
    (hdata : ∀ e ∈ content, e.2 ∈ D) {now : ℤ} (hadd : t.addEntry now content = some t') :
    ({ h.add content with last := h.last } : Shelf).Reflects C D
      (origins ++ [(t.nextId, content)]) t' := by
  have hwf := addEntry_wf hr.wf hadd
  have hintact := hr.intact.addEntry hr.wf hD hdata hadd
  have hentries := entries_addEntry hadd
  have hold : ∀ e ∈ t.entries, e.id ≠ t.nextId := fun e he => (id_lt_nextId he).ne
  have hlast : t'.lastEntry = t.lastEntry := by
    obtain ⟨t₁, -, hs, heq⟩ := addEntry_eq t now content
    obtain rfl := Option.some.inj (heq.symm.trans hadd)
    exact hs.lastEntry
  have hhistory : t'.history =
      ⟨t.nextId, t.maxSortIndex + 1, now, now, false, some content.hash, ⟨none, none⟩⟩ ::
        t.history.map fun e =>
          if e.hash = some content.hash then { e with hash := none } else e := by
    have hsort : ∀ e : Entry, (if e.hash = some content.hash then { e with hash := none } else
        e).sortIndex = e.sortIndex := fun e => by split <;> rfl
    rw [Tables.history, hentries, sortDesc_append_top, sortDesc_map fun e _ => hsort e,
      Tables.history]
    · rw [Distinct, List.map_map]
      exact (List.map_congr_left fun e _ => hsort e) ▸ hr.wf.sortDistinct
    · intro e he
      obtain ⟨x, hx, rfl⟩ := List.mem_map.mp he
      rw [hsort]
      exact sortIndex_lt_max hx
  have hnew : originOf (origins ++ [(t.nextId, content)]) t.nextId = content :=
    originOf_eq hintact.traced.distinct (List.mem_append_right _ (List.mem_singleton_self _))
  refine ⟨hwf, hintact, hr.hashed.addEntry hadd ?_ ?_, ?_, ?_, ?_, ?_⟩
  · intro e' he' hid
    refine ⟨hcontent, fun d hd => ?_⟩
    rw [hentries, List.mem_append, List.mem_map, List.mem_singleton] at he'
    rcases he' with ⟨e, he, rfl⟩ | rfl
    · refine absurd (Eq.trans ?_ hid) (hold e he)
      split <;> rfl
    · exact (Option.some.inj hd).symm
  · intro e' he' hid
    rw [hentries, List.mem_append, List.mem_map, List.mem_singleton] at he'
    rcases he' with ⟨e, he, rfl⟩ | rfl
    · refine ⟨e, he, by split <;> rfl, fun c hc => ⟨hc.1, fun d hd => hc.2 d ?_⟩⟩
      split at hd
      · cases hd
      · exact hd
    · exact absurd rfl hid
  · rw [hhistory, List.map_cons, List.map_map]
    have hfirst : Item.of (origins ++ [(t.nextId, content)]) ⟨t.nextId, t.maxSortIndex + 1, now,
        now, false, some content.hash, ⟨none, none⟩⟩ = ⟨h.next, false, content, true⟩ := by
      rw [Item.of, hnew, hr.next]
      rfl
    rw [hfirst]
    change _ :: h.items.map _ = _
    rw [hr.items, List.map_map]
    congr 1
    refine List.map_congr_left fun e he => ?_
    have hmem := mem_history.mp he
    have horigin : originOf (origins ++ [(t.nextId, content)]) e.id = originOf origins e.id :=
      originOf_append_of_ne (hold e hmem)
    rw [Function.comp_apply, Function.comp_apply]
    by_cases hcarries : e.hash = some content.hash
    · rw [if_pos ((hr.holds_iff hC hcontent hmem).mpr hcarries), if_pos hcarries, Item.of, Item.of]
      simp only [horigin]
      rfl
    · rw [if_neg (fun hholds => hcarries ((hr.holds_iff hC hcontent hmem).mp hholds)),
        if_neg hcarries, Item.of, Item.of, horigin]
  · change h.next + 1 = _
    rw [Counted.nextId hwf.idSeq, seq_addEntry hadd, hr.next]
  · rw [hlast]
    exact hr.last
  · rw [hlast]
    exact hr.lastPos

/-! ## Copies -/

/-- What becomes of the history by the verdict on a copy. -/
def settle (content : Content) (h : Shelf) : Verdict → Shelf × Option ℤ
  | .add => (h.add content, some h.next)
  | .move id _ => (h.raise id, some id)
  | .ignore => (h, none)

theorem Reflects.find_nowhere (hr : h.Reflects C D origins t) (hC : Set.InjOn Content.hash C)
    {content : Content} (hcontent : content ∈ C)
    (hnone : ∀ e ∈ t.entries, e.hash ≠ some content.hash) : h.find content = .nowhere := by
  have hnot : ∀ x ∈ h.items, ¬ Item.holds content x = true := by
    intro x hx
    obtain ⟨e, he, rfl⟩ := hr.mem.mp hx
    rw [hr.holds_iff hC hcontent he]
    exact hnone e he
  rw [find]
  cases hitems : h.items with
  | nil => rfl
  | cons x rest =>
    rw [hitems] at hnot
    have hrest : rest.find? (Item.holds content) = none :=
      List.find?_eq_none.mpr fun y hy => hnot y (List.mem_cons_of_mem _ hy)
    simp only [if_neg (hnot x List.mem_cons_self), hrest]

/-- The position of the row that carries the hash tells where copies are found. -/
theorem Reflects.find_carrier (hr : h.Reflects C D origins t) (hC : Set.InjOn Content.hash C)
    {content : Content} (hcontent : content ∈ C) {e : Entry} (he : e ∈ t.entries)
    (hcarries : e.hash = some content.hash) : h.find content =
      if rank Entry.sortIndex t.entries e.sortIndex = 0 then .first else .behind e.id := by
  have honly : ∀ x ∈ h.items, Item.holds content x = true → x = Item.of origins e := by
    intro x hx hholds
    obtain ⟨y, hy, rfl⟩ := hr.mem.mp hx
    have hother := (hr.holds_iff hC hcontent hy).mp hholds
    rw [eq_of_countP_le_one (hr.wf.hashUnique content.hash) hy he (by simp [hother])
      (by simp [hcarries])]
  have hholds : Item.holds content (Item.of origins e) = true :=
    (hr.holds_iff hC hcontent he).mpr hcarries
  have hplace :
      h.items[rank Entry.sortIndex t.entries e.sortIndex]? = some (Item.of origins e) := by
    rw [hr.items, List.getElem?_map, Tables.history, sortDesc_getElem_rank hr.wf.sortDistinct he]
    rfl
  have hnodup : (h.items.map Item.id).Nodup := by
    rw [hr.items, List.map_map]
    exact history_idDistinct hr.wf
  rw [find]
  generalize rank Entry.sortIndex t.entries e.sortIndex = n at hplace ⊢
  cases hitems : h.items with
  | nil =>
    rw [hitems] at hplace
    cases hplace
  | cons x rest =>
    rw [hitems] at hplace honly hnodup
    cases n with
    | zero =>
      obtain rfl : x = Item.of origins e := Option.some.inj hplace
      simp only [if_pos hholds, if_true]
    | succ n =>
      have hrest : Item.of origins e ∈ rest := List.mem_of_getElem? hplace
      have hx : ¬ Item.holds content x = true := by
        intro hfirst
        obtain rfl := honly x List.mem_cons_self hfirst
        exact (List.nodup_cons.mp hnodup).1 (List.mem_map_of_mem hrest)
      have hfind : rest.find? (Item.holds content) = some (Item.of origins e) := by
        cases hfind : rest.find? (Item.holds content) with
        | none => exact absurd hholds (List.find?_eq_none.mp hfind _ hrest)
        | some y =>
          rw [honly y (List.mem_cons_of_mem _ (List.mem_of_find?_eq_some hfind))
            (List.find?_some hfind)]
      simp only [if_neg hx, hfind, Nat.add_one_ne_zero, if_false]
      rfl

/-- The verdict on the hashes is the one on the contents. -/
theorem Reflects.copy (hr : h.Reflects C D origins t) (hC : Set.InjOn Content.hash C)
    {content : Content} (hcontent : content ∈ C) (dedup : Dedup) :
    h.copy dedup content = h.settle content (verdict dedup content.hash t) := by
  cases hpos : t.entryHashPos content.hash with
  | none =>
    have hfind := hr.find_nowhere hC hcontent (entryHashPos_eq_none.mp hpos)
    cases dedup <;> simp only [Shelf.copy, hfind, verdict, hpos, settle]
  | some p =>
    obtain ⟨id, pos⟩ := p
    obtain ⟨e, he, hcarries, rfl, hrank⟩ := entryHashPos_eq_some hpos
    have hfind := hr.find_carrier hC hcontent he hcarries
    by_cases hzero : rank Entry.sortIndex t.entries e.sortIndex = 0
    · have hpos0 : pos = 0 := by omega
      rw [if_pos hzero] at hfind
      cases dedup <;> simp only [Shelf.copy, hfind, verdict, hpos, settle, hpos0, if_true]
    · have hpos0 : pos ≠ 0 := by omega
      rw [if_neg hzero] at hfind
      cases dedup <;> simp only [Shelf.copy, hfind, verdict, hpos, settle, hpos0, if_false]

end Reflects

end Shelf

end Swayclip
