import Mathlib.Data.Set.Function
import Mathlib.Logic.Relation
import Swayclip.Database.Connection
import Swayclip.Database.Store

/-! # Where the content of an entry comes from

The tables do not say which event created an entry, nor in which order it offered its types.
Origins remember it. What they say is true of the tables as long as no two pieces of data
that are stored share a digest: rows of `Data` may be shared and may be collected, but an entry
never loses data that it was created with, nor finds other data in its place.
-/

namespace Swayclip
open Library.Ranking

/-- The contents that entries were created with. -/
abbrev Origins := List (ℤ × Content)

namespace Tables

/-- A change that creates no entry. -/
inductive Change (t : Tables) : Tables → Prop
  | rewrite {t' : Tables} (hrows : t'.entries.map (fun e => (e.id, e.hash)) =
      t.entries.map (fun e => (e.id, e.hash))) (hmime : t'.mimeTypes = t.mimeTypes)
      (hdata : t'.data = t.data) (hseq : t'.seq = t.seq) : Change t t'
  | delete (ids : List ℤ) : Change t (t.delEntries ids)

abbrev Changes : Tables → Tables → Prop := Relation.ReflTransGen Change

theorem SameRows.change {t t' : Tables} (h : t'.SameRows t) : Change t t' :=
  .rewrite (by rw [h.entries]) h.mimeTypes h.data h.seq

theorem change_updateEntry (t : Tables) (now : ℤ) (pinned : Option Bool) (id : ℤ) :
    Change t (t.updateEntry now pinned id) := by
  refine .rewrite ?_ rfl rfl rfl
  rw [updateEntry, List.map_map]
  exact List.map_congr_left fun e _ => by
    rw [Function.comp_apply]
    split <;> rfl

theorem change_updateSortIndex (t : Tables) (id : ℤ) : Change t (t.updateSortIndex id) := by
  refine .rewrite ?_ rfl rfl rfl
  rw [updateSortIndex, List.map_map]
  exact List.map_congr_left fun e _ => by
    rw [Function.comp_apply]
    split <;> rfl

theorem changes_moveEntry (t : Tables) (now id : ℤ) : Changes t (t.moveEntry now id) :=
  (Relation.ReflTransGen.single (change_updateSortIndex t id)).tail (change_updateEntry ..)

theorem changes_trim (t : Tables) (offset : ℕ) : Changes t (t.trim offset).2 :=
  .single (.delete (t.trim offset).1)

/-- The entries that are left have kept their hashes. -/
theorem Change.mem {t t' : Tables} (h : Change t t') {e' : Entry} (he' : e' ∈ t'.entries) :
    ∃ e ∈ t.entries, e.id = e'.id ∧ e.hash = e'.hash := by
  cases h with
  | rewrite hrows =>
    have hmem : (e'.id, e'.hash) ∈ t'.entries.map (fun e => (e.id, e.hash)) :=
      List.mem_map_of_mem (f := fun e : Entry => (e.id, e.hash)) he'
    rw [hrows, List.mem_map] at hmem
    obtain ⟨e, he, hpair⟩ := hmem
    exact ⟨e, he, Prod.mk.inj hpair⟩
  | delete ids =>
    rw [delEntries_eq, List.mem_filter] at he'
    exact ⟨e', he'.1, rfl, rfl⟩

theorem Changes.mem {t t' : Tables} (h : Changes t t') {e' : Entry} (he' : e' ∈ t'.entries) :
    ∃ e ∈ t.entries, e.id = e'.id ∧ e.hash = e'.hash := by
  induction h generalizing e' with
  | refl => exact ⟨e', he', rfl, rfl⟩
  | tail _ hstep ih =>
    obtain ⟨e, he, hid, hhash⟩ := hstep.mem he'
    obtain ⟨x, hx, hxid, hxhash⟩ := ih he
    exact ⟨x, hx, hxid.trans hid, hxhash.trans hhash⟩

theorem Change.seq {t t' : Tables} (h : Change t t') : t'.seq = t.seq := by
  cases h with
  | rewrite _ _ _ hseq => exact hseq
  | delete ids => rw [delEntries_eq]

/-- The entry that a step adds, if it adds one and keeps it, bears the next id. -/
def created (received : Option Content) (t t' : Tables) : Origins :=
  if t'.idExists t.nextId then (received.map (fun content => (t.nextId, content))).toList else []

theorem created_changes {t t' : Tables} (h : Changes t t') (received : Option Content) :
    created received t t' = [] := by
  rw [created, if_neg]
  intro hex
  obtain ⟨e', he', hid'⟩ := idExists_iff.mp hex
  obtain ⟨e, he, hid, -⟩ := h.mem he'
  have := id_lt_nextId he
  omega

/-- What a step does to the tables: it creates at most one entry, with a content in `Q`. -/
inductive Evolves (Q : Content → Prop) (now : ℤ) (received : Option Content) (t t' : Tables) : Prop
  | changed (h : Changes t t')
  | added {content : Content} {t₁ : Tables} (hreceived : received = some content)
      (hcontent : Q content) (hadd : t.addEntry now content = some t₁) (h : Changes t₁ t')

theorem Evolves.trans {Q : Content → Prop} {now : ℤ} {received : Option Content} {t t' t'' : Tables}
    (h : Evolves Q now received t t') (h' : Changes t' t'') : Evolves Q now received t t'' := by
  cases h with
  | changed h => exact .changed (h.trans h')
  | added hreceived hcontent hadd h => exact .added hreceived hcontent hadd (h.trans h')

/-! ## True origins -/

/-- Every entry has one origin, which is true of it in the sense of `P`. -/
structure Traced (P : Entry → Content → Prop) (origins : Origins) (t : Tables) : Prop where
  distinct : Distinct Prod.fst origins
  used : ∀ r ∈ origins, r.1 ≤ t.seq
  each : ∀ e ∈ t.entries, ∃ content, (e.id, content) ∈ origins ∧ P e content

section Traced
variable {P P' : Entry → Content → Prop} {origins : Origins} {t t' : Tables}

theorem traced_empty (P : Entry → Content → Prop) : Traced P [] Tables.empty :=
  ⟨List.nodup_nil, by simp, by simp [Tables.empty]⟩

theorem Traced.origin_unique (h : Traced P origins t) {id : ℤ} {content content' : Content}
    (hmem : (id, content) ∈ origins) (hmem' : (id, content') ∈ origins) : content = content' :=
  (Prod.mk.inj (h.distinct.eq hmem hmem' rfl)).2

/-- What the origin says is true of the entry. -/
theorem Traced.of_mem (h : Traced P origins t) {e : Entry} (he : e ∈ t.entries) {content : Content}
    (hmem : (e.id, content) ∈ origins) : P e content := by
  obtain ⟨other, hother, hP⟩ := h.each e he
  rwa [h.origin_unique hmem hother]

/-- Entries that come from old ones keep their origins. -/
theorem Traced.imp (h : Traced P origins t) (hseq : t'.seq = t.seq)
    (himp : ∀ e' ∈ t'.entries, ∃ e ∈ t.entries, e.id = e'.id ∧ ∀ c, P e c → P' e' c) :
    Traced P' origins t' := by
  refine ⟨h.distinct, fun r hr => hseq ▸ h.used r hr, fun e' he' => ?_⟩
  obtain ⟨e, he, hid, hP⟩ := himp e' he'
  obtain ⟨content, hmem, hc⟩ := h.each e he
  exact ⟨content, hid ▸ hmem, hP content hc⟩

/-- Changes leave alone what the hashes say about the origins. -/
theorem Traced.changes {R : Option Digest → Content → Prop}
    (h : Traced (fun e content => R e.hash content) origins t) (hc : Changes t t') :
    Traced (fun e content => R e.hash content) origins t' := by
  induction hc with
  | refl => exact h
  | tail _ hstep ih =>
    refine ih.imp hstep.seq fun e' he' => ?_
    obtain ⟨e, he, hid, hhash⟩ := hstep.mem he'
    exact ⟨e, he, hid, fun content hcontent => hhash ▸ hcontent⟩

theorem seq_addEntry {now : ℤ} {content : Content} (hadd : t.addEntry now content = some t') :
    t'.seq = t.nextId := by
  obtain ⟨t₁, -, hs, ht₁⟩ := addEntry_eq t now content
  obtain rfl := Option.some.inj (ht₁.symm.trans hadd)
  exact hs.seq

/-- A new entry comes with a new origin. -/
theorem Traced.addEntry (h : Traced P origins t) {now : ℤ} {content : Content}
    (hadd : t.addEntry now content = some t')
    (hnew : ∀ e' ∈ t'.entries, e'.id = t.nextId → P' e' content)
    (hold : ∀ e' ∈ t'.entries, e'.id ≠ t.nextId →
      ∃ e ∈ t.entries, e.id = e'.id ∧ ∀ c, P e c → P' e' c) :
    Traced P' (origins ++ [(t.nextId, content)]) t' := by
  have hnext := seq_lt_nextId t
  refine ⟨?_, fun r hr => ?_, fun e' he' => ?_⟩
  · rw [Distinct, List.map_append, List.nodup_append]
    refine ⟨h.distinct, List.nodup_singleton _, ?_⟩
    rintro id hid _ hid' rfl
    obtain ⟨r, hr, rfl⟩ := List.mem_map.mp hid
    have hused := h.used r hr
    rw [List.map_singleton, List.mem_singleton] at hid'
    omega
  · rw [seq_addEntry hadd]
    rcases List.mem_append.mp hr with hr | hr
    · exact (h.used r hr).trans hnext.le
    · rw [List.mem_singleton.mp hr]
  · by_cases hid : e'.id = t.nextId
    · rw [hid]
      exact ⟨content, List.mem_append_right _ (List.mem_singleton_self _), hnew e' he' hid⟩
    · obtain ⟨e, he, heid, hP⟩ := hold e' he' hid
      obtain ⟨old, hmem, hc⟩ := h.each e he
      exact ⟨old, List.mem_append_left _ (heid ▸ hmem), hP old hc⟩

/-- An origin whose entry is gone may be forgotten. -/
theorem Traced.forget {id : ℤ} {content : Content} (h : Traced P (origins ++ [(id, content)]) t)
    (hid : ∀ e ∈ t.entries, e.id ≠ id) : Traced P origins t := by
  refine ⟨?_, fun r hr => h.used r (List.mem_append_left _ hr), fun e he => ?_⟩
  · have := h.distinct
    rw [Distinct, List.map_append, List.nodup_append] at this
    exact this.1
  · obtain ⟨old, hmem, hP⟩ := h.each e he
    rcases List.mem_append.mp hmem with hmem | hmem
    · exact ⟨old, hmem, hP⟩
    · exact absurd (Prod.mk.inj (List.mem_singleton.mp hmem)).1 (hid e he)

/-- After a step, the origins go on with what it created. -/
theorem Traced.created {Q : Content → Prop} {now : ℤ} {received : Option Content}
    (h : Evolves Q now received t t') (hchanged : Changes t t' → Traced P origins t')
    (hadded : ∀ content t₁, received = some content → Q content →
      t.addEntry now content = some t₁ → Changes t₁ t' →
        Traced P (origins ++ [(t.nextId, content)]) t') :
    Traced P (origins ++ created received t t') t' := by
  cases h with
  | changed hc =>
    rw [created_changes hc, List.append_nil]
    exact hchanged hc
  | @added content t₁ hreceived hcontent hadd hc =>
    have hall := hadded content t₁ hreceived hcontent hadd hc
    subst hreceived
    rw [Tables.created]
    split
    · exact hall
    · rename_i hnot
      rw [List.append_nil]
      exact hall.forget fun e he hid => hnot (idExists_iff.mpr ⟨e, he, hid⟩)

end Traced

/-! ## Entries hold what their origins say -/

/-- Each entry holds its content, and all data that is stored belongs to `D`. -/
structure Intact (D : Set Bytes) (origins : Origins) (t : Tables) : Prop where
  traced : Traced (fun e content => t.Holds e.id content) origins t
  stored : ∀ d data, t.dataOf d = some data → sha256 data = d ∧ data ∈ D

section Intact
variable {D : Set Bytes} {origins : Origins} {t t' : Tables}

theorem intact_empty (D : Set Bytes) : Intact D [] Tables.empty :=
  ⟨traced_empty _, by simp [dataOf, Tables.empty]⟩

theorem Intact.change (h : Intact D origins t) (hc : Change t t') : Intact D origins t' := by
  refine ⟨h.traced.imp hc.seq fun e' he' => ?_, fun d data hdata => ?_⟩
  · obtain ⟨e, he, hid, -⟩ := hc.mem he'
    refine ⟨e, he, hid, fun content hholds => ?_⟩
    rw [hid] at hholds
    cases hc with
    | rewrite _ hmime hdata => exact hholds.congr hmime hdata
    | delete ids =>
      rw [delEntries_eq, List.mem_filter] at he'
      exact hholds.delEntries (by simpa using he'.2)
  · cases hc with
    | rewrite _ _ hrows =>
      rw [dataOf, hrows] at hdata
      exact h.stored d data hdata
    | delete ids =>
      rw [dataOf_delEntries] at hdata
      split at hdata
      · cases hdata
      · exact h.stored d data hdata

theorem Intact.changes (h : Intact D origins t) (hc : Changes t t') : Intact D origins t' := by
  induction hc with
  | refl => exact h
  | tail _ hstep ih => exact ih.change hstep

/-- Data that the content brings along is its own. -/
theorem dataOf_eq_some {content : Content} {d : Digest} {data : Bytes}
    (h : content.dataOf d = some data) : sha256 data = d ∧ ∃ m, (m, data) ∈ content := by
  obtain ⟨e, he, rfl⟩ := Option.map_eq_some_iff.mp h
  have hkey : e.2 ≠ [] ∧ sha256 e.2 = d := by simpa using List.find?_some he
  exact ⟨hkey.2, e.1, List.mem_of_find?_eq_some he⟩

/-- A digest that is found leads to the data it was computed from. -/
theorem Intact.holds_addEntry (h : Intact D origins t) (hwf : t.WF) (hD : Set.InjOn sha256 D)
    {content : Content} (hcontent : ∀ e ∈ content, e.2 ∈ D) {now : ℤ}
    (hadd : t.addEntry now content = some t') : t'.Holds t.nextId content := by
  refine (holds_addEntry_iff hwf hadd).mpr fun m data hfirst hne => ?_
  have hmem : (m, data) ∈ content := Content.first_eq_some hfirst
  have hdata : data ∈ D := hcontent _ hmem
  cases hold : t.dataOf (sha256 data) with
  | some x =>
    obtain ⟨hsha, hx⟩ := h.stored _ x hold
    rw [Option.some_or, hD hx hdata hsha]
  | none =>
    rw [Option.none_or]
    cases hnew : content.dataOf (sha256 data) with
    | some x =>
      obtain ⟨hsha, m', hx⟩ := dataOf_eq_some hnew
      exact congrArg some (hD (hcontent _ hx) hdata hsha)
    | none =>
      rw [Content.dataOf, Option.map_eq_none_iff, List.find?_eq_none] at hnew
      exact absurd (by simpa using hnew _ hmem) hne

theorem Intact.addEntry (h : Intact D origins t) (hwf : t.WF) (hD : Set.InjOn sha256 D)
    {content : Content} (hcontent : ∀ e ∈ content, e.2 ∈ D) {now : ℤ}
    (hadd : t.addEntry now content = some t') :
    Intact D (origins ++ [(t.nextId, content)]) t' := by
  refine ⟨h.traced.addEntry hadd (fun e' _ hid => ?_) fun e' he' hid => ?_, fun d data hdata => ?_⟩
  · rw [hid]
    exact h.holds_addEntry hwf hD hcontent hadd
  · rw [entries_addEntry hadd, List.mem_append, List.mem_map, List.mem_singleton] at he'
    rcases he' with ⟨e, he, rfl⟩ | rfl
    · have hkept : (if e.hash = some content.hash then { e with hash := none } else e).id = e.id :=
        by split <;> rfl
      rw [hkept]
      exact ⟨e, he, rfl, fun _ => holds_addEntry_of_ne hwf hadd (id_lt_nextId he).ne⟩
    · exact absurd rfl hid
  · rw [dataOf_addEntry hadd] at hdata
    rcases Option.or_eq_some_iff.mp hdata with hold | ⟨-, hnew⟩
    · exact h.stored d data hold
    · obtain ⟨hsha, m, hmem⟩ := dataOf_eq_some hnew
      exact ⟨hsha, hcontent _ hmem⟩

theorem Intact.evolves {Q : Content → Prop} {now : ℤ} {received : Option Content}
    (h : Intact D origins t) (hwf : t.WF) (hD : Set.InjOn sha256 D)
    (hreceived : ∀ content ∈ received, ∀ e ∈ content, e.2 ∈ D)
    (hs : Evolves Q now received t t') : Intact D (origins ++ Tables.created received t t') t' := by
  have hadded : ∀ content t₁, received = some content → t.addEntry now content = some t₁ →
      Changes t₁ t' → Intact D (origins ++ [(t.nextId, content)]) t' :=
    fun content t₁ hrec hadd hc => (h.addEntry hwf hD (hreceived content hrec) hadd).changes hc
  refine ⟨Traced.created hs (fun hc => (h.changes hc).traced)
    fun content t₁ hrec _ hadd hc => (hadded content t₁ hrec hadd hc).traced, ?_⟩
  cases hs with
  | changed hc => exact (h.changes hc).stored
  | added hrec _ hadd hc => exact (hadded _ _ hrec hadd hc).stored

end Intact

end Tables

end Swayclip
