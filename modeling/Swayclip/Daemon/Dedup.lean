import Swayclip.Daemon.Provenance

/-! # Nothing twice

With dedup mode "all", an entry that is copied again moves to the front instead of being
stored once more. The code compares hashes only; what makes this work is that in this mode
every entry carries the hash of its content all the time.
-/

namespace Swayclip
open Library.Ranking Library.Runs Tables

namespace Tables

/-- The ids in the order of the history. -/
def ids (t : Tables) : List ℤ := t.history.map Entry.id

theorem view_fst (t : Tables) : t.view.map Prod.fst = t.ids := by
  rw [view, List.map_map, ids]
  rfl

theorem mem_ids {t : Tables} {id : ℤ} : id ∈ t.ids ↔ ∃ e ∈ t.entries, e.id = id := by
  rw [← view_fst]
  exact mem_view_fst

theorem ids_nodup {t : Tables} (h : t.WF) : t.ids.Nodup := by
  rw [← view_fst]
  exact view_fst_nodup h

theorem length_ids (t : Tables) : t.ids.length = t.entries.length := by
  rw [ids, List.length_map, history, length_sortDesc]

/-- Each entry carries the hash of the content it was created with, which is one of `C`. -/
def Hashed (C : Set Content) : Origins → Tables → Prop :=
  Traced (fun e content => content ∈ C ∧ e.hash = some content.hash)

section Hashed
variable {C : Set Content} {origins : Origins} {t t' : Tables}

theorem Hashed.changes (h : Hashed C origins t) (hc : Changes t t') : Hashed C origins t' :=
  Traced.changes (R := fun hash content => content ∈ C ∧ hash = some content.hash) h hc

/-- A content whose hash no entry carries takes the hash from nobody. -/
theorem Hashed.addEntry (h : Hashed C origins t) {content : Content} (hcontent : content ∈ C)
    (hfresh : ∀ e ∈ t.entries, e.hash ≠ some content.hash) {now : ℤ}
    (hadd : t.addEntry now content = some t') :
    Hashed C (origins ++ [(t.nextId, content)]) t' := by
  have hmem : ∀ e' ∈ t'.entries, e' ∈ t.entries ∨
      e'.id = t.nextId ∧ e'.hash = some content.hash := by
    intro e' he'
    rw [entries_addEntry hadd, List.mem_append, List.mem_map, List.mem_singleton] at he'
    rcases he' with ⟨e, he, rfl⟩ | rfl
    · rw [if_neg (hfresh e he)]
      exact Or.inl he
    · exact Or.inr ⟨rfl, rfl⟩
  refine Traced.addEntry h hadd (fun e' he' hid => ?_) fun e' he' hid => ?_
  · rcases hmem e' he' with he | ⟨-, hhash⟩
    · exact absurd hid (id_lt_nextId he).ne
    · exact ⟨hcontent, hhash⟩
  · rcases hmem e' he' with he | ⟨hnew, -⟩
    · exact ⟨e', he, rfl, fun _ hc => hc⟩
    · exact absurd hnew hid

theorem Hashed.evolves {now : ℤ} {received : Option Content} (h : Hashed C origins t)
    (hreceived : ∀ content ∈ received, content ∈ C)
    (hs : Evolves (fun content => ∀ e ∈ t.entries, e.hash ≠ some content.hash) now received t t') :
    Hashed C (origins ++ created received t t') t' :=
  Traced.created hs h.changes fun content _ hrec hfresh hadd hc =>
    (h.addEntry (hreceived content hrec) hfresh hadd).changes hc

/-- An entry was created with a content exactly if it carries its hash. -/
theorem Hashed.mem_iff (h : Hashed C origins t) (hC : Set.InjOn Content.hash C) {content : Content}
    (hcontent : content ∈ C) {e : Entry} (he : e ∈ t.entries) :
    (e.id, content) ∈ origins ↔ e.hash = some content.hash := by
  constructor
  · exact fun hmem => (Traced.of_mem h he hmem).2
  · intro hhash
    obtain ⟨other, hmem, hother, hotherHash⟩ := h.each e he
    have hsame : other.hash = content.hash := Option.some.inj (hotherHash.symm.trans hhash)
    rwa [hC hother hcontent hsame] at hmem

/-- No two rows with one content. -/
theorem Hashed.eq_of_mem (h : Hashed C origins t) (hwf : t.WF) {content : Content} {x y : Entry}
    (hx : x ∈ t.entries) (hy : y ∈ t.entries) (hxc : (x.id, content) ∈ origins)
    (hyc : (y.id, content) ∈ origins) : x = y := by
  have hxh := (Traced.of_mem h hx hxc).2
  have hyh := (Traced.of_mem h hy hyc).2
  exact eq_of_countP_le_one (hwf.hashUnique content.hash) hx hy (by simp [hxh]) (by simp [hyh])

end Hashed

/-! ## What a copy does to the history -/

/-- Among the new entries, `e` is the only one with the content and the first; the others are
in the same order as before; and there is one more exactly if the content is new. -/
structure BroughtFront (origins : Origins) (content : Content) (t t' : Tables) (e : Entry) :
    Prop where
  only : ∀ x ∈ t'.entries, (x.id, content) ∈ origins ++ created (some content) t t' ↔ x = e
  front : t'.history[0]? = some e
  grew : t'.entries.length = t.entries.length + 1 ↔ ∀ x ∈ t.entries, (x.id, content) ∉ origins
  others : t'.ids.filter (fun i => i ≠ e.id) = t.ids.filter (fun i => i ≠ e.id)

section Front
variable {C : Set Content} {origins : Origins} {t t' : Tables} {content : Content}

/-- The entry that carries the hash afterwards is first, and was there if any carried it. -/
theorem broughtFront (hC : Set.InjOn Content.hash C) (hcontent : content ∈ C)
    (h : Hashed C origins t) (h' : Hashed C (origins ++ created (some content) t t') t')
    (hwf' : t'.WF) {e : Entry} (he : e ∈ t'.entries)
    (hhash : e.hash = some content.hash)
    {id : ℤ} (hid : e.id = id) (hids : t'.ids = id :: t.ids.filter (fun i => i ≠ id))
    (hold : id ∈ t.ids ↔ ∃ x ∈ t.entries, x.hash = some content.hash) :
    BroughtFront origins content t t' e := by
  subst hid
  refine ⟨fun x hx => ?_, ?_, ?_, ?_⟩
  · constructor
    · intro hmem
      exact h'.eq_of_mem hwf' hx he hmem ((h'.mem_iff hC hcontent he).mpr hhash)
    · rintro rfl
      exact (h'.mem_iff hC hcontent hx).mpr hhash
  · cases hhistory : t'.history with
    | nil => simp [ids, hhistory] at hids
    | cons y rest =>
      rw [ids, hhistory, List.map_cons] at hids
      have hy : y ∈ t'.entries := mem_history.mp (by rw [hhistory]; exact List.mem_cons_self)
      rw [hwf'.idDistinct.eq hy he (List.cons.inj hids).1]
      rfl
  · have hnew : (∀ x ∈ t.entries, (x.id, content) ∉ origins) ↔ e.id ∉ t.ids := by
      rw [hold, not_exists]
      refine forall_congr' fun x => ?_
      rw [not_and]
      refine forall_congr' fun hx => ?_
      rw [h.mem_iff hC hcontent hx]
    have hlength : t'.entries.length = (t.ids.filter (fun i => i ≠ e.id)).length + 1 := by
      rw [← length_ids, hids, List.length_cons]
    rw [hnew, hlength, ← length_ids t, Nat.add_right_cancel_iff]
    constructor
    · intro hall hmem
      have hkept := List.filter_eq_self.mp (List.filter_sublist.eq_of_length hall) e.id hmem
      simp at hkept
    · intro hnot
      rw [List.filter_eq_self.mpr]
      exact fun id hid => by simpa using ne_of_mem_of_not_mem hid hnot
  · rw [hids, List.filter_cons_of_neg (by simp), List.filter_filter]
    simp

end Front

/-- The first of the history is first among the ids. -/
theorem ids_eq_cons {t : Tables} (h : t.WF) {id : ℤ} {rest : List ℤ} (hids : t.ids = id :: rest) :
    t.ids = id :: t.ids.filter (fun i => i ≠ id) := by
  have hnodup := ids_nodup h
  rw [hids, List.nodup_cons] at hnodup
  rw [hids, List.filter_cons_of_neg (by simp), List.filter_eq_self.mpr]
  exact fun i hi => by simpa using ne_of_mem_of_not_mem hi hnodup.1

theorem ids_of_rank {t : Tables} (h : t.WF) {e : Entry} (he : e ∈ t.entries)
    (hrank : rank Entry.sortIndex t.entries e.sortIndex = 0) :
    t.ids = e.id :: t.ids.filter (fun i => i ≠ e.id) := by
  have hfirst := sortDesc_getElem_rank h.sortDistinct he
  rw [hrank, ← history] at hfirst
  cases hhistory : t.history with
  | nil => simp [hhistory] at hfirst
  | cons x rest =>
    obtain rfl : x = e := by simpa [hhistory] using hfirst
    have hids : t.ids = x.id :: rest.map Entry.id := by rw [ids, hhistory, List.map_cons]
    exact ids_eq_cons h hids

theorem ids_moveEntry {t : Tables} (h : t.WF) (now : ℤ) {e : Entry} (he : e ∈ t.entries) :
    (t.moveEntry now e.id).ids = e.id :: t.ids.filter (fun i => i ≠ e.id) := by
  rw [← view_fst, view_moveEntry h now he, List.map_cons, ← view_fst, List.filter_map]
  rfl

theorem ids_addEntry {t t' : Tables} (h : t.WF) {now : ℤ} {content : Content}
    (hadd : t.addEntry now content = some t') :
    t'.ids = t.nextId :: t.ids.filter (fun i => i ≠ t.nextId) := by
  rw [← view_fst, view_addEntry h hadd, List.map_cons, view_fst, List.filter_eq_self.mpr]
  intro i hi
  obtain ⟨e, he, rfl⟩ := mem_ids.mp hi
  simpa using (id_lt_nextId he).ne

theorem SameRows.ids {t t' : Tables} (h : t'.SameRows t) : t'.ids = t.ids := by
  rw [← view_fst, h.view, view_fst]

end Tables

/-! ## The verdict -/

theorem verdict_all_add {hash : Digest} {t : Tables} (h : verdict .all hash t = .add) :
    ∀ e ∈ t.entries, e.hash ≠ some hash := by
  apply entryHashPos_eq_none.mp
  cases hpos : t.entryHashPos hash with
  | none => rfl
  | some p =>
    obtain ⟨id, pos⟩ := p
    simp only [verdict, hpos] at h
    split at h <;> cases h

theorem verdict_all_ignore {hash : Digest} {t : Tables} (h : verdict .all hash t = .ignore) :
    ∃ e ∈ t.entries, e.hash = some hash ∧ rank Entry.sortIndex t.entries e.sortIndex = 0 := by
  cases hpos : t.entryHashPos hash with
  | none => simp [verdict, hpos] at h
  | some p =>
    obtain ⟨id, pos⟩ := p
    obtain ⟨e, he, hhash, -, hrank⟩ := entryHashPos_eq_some hpos
    simp only [verdict, hpos] at h
    split at h
    · rename_i hzero
      exact ⟨e, he, hhash, by omega⟩
    · cases h

namespace State

section Copied
variable {a : Ambient} {name : SelectionName} {s s' : State}

/-- Nothing is added whose hash an entry carries. -/
theorem copied_evolves {received : Option Content} (hdedup : s.config.dedup = .all)
    (h : Copied a name received s s') :
    Evolves (fun content => ∀ e ∈ s.db.tables.entries, e.hash ≠ some content.hash) a.now received
      s.db.tables s'.db.tables := by
  cases h with
  | failed | ignored => exact .changed .refl
  | moved => exact .changed ((changes_moveEntry ..).tail (movedFront_sameRows ..).change)
  | added hreceived hverdict hadd =>
    rw [hdedup] at hverdict
    refine .added hreceived (verdict_all_add hverdict) hadd ?_
    exact (Relation.ReflTransGen.single (mapAttributes_change ..)).tail
      (committed_sameRows ..).change

theorem handled_evolves {written : ℕ → Option Bytes} {mimeTypes : List CString} {transient : Bool}
    (hdedup : s.config.dedup = .all) (h : Handled a name written mimeTypes transient s s') :
    Evolves (fun content => ∀ e ∈ s.db.tables.entries, e.hash ≠ some content.hash) a.now
      (receiveAll s.config written 0 mimeTypes) s.db.tables s'.db.tables := by
  cases h with
  | empty | lost => exact .changed .refl
  | @kept _ _ content =>
    have hrows := set_sameRows a.sql (some name) 0 { s with id := -1, transient := content }
    exact .changed (.single hrows.change)
  | stored hmime htransient hcopied =>
    exact (copied_evolves (s := s.clearTransient) hdedup hcopied).trans (trim_changes a _)

/-- Whatever the verdict, one entry is first in the end, and it is the one that carried the hash
if any did. -/
theorem copied_front {content : Content} (hdedup : s.config.dedup = .all)
    (hwf : s.db.tables.WF) (hcopied : Copied a name (some content) s s') :
    ∃ id, s'.db.tables.ids = id :: s.db.tables.ids.filter (fun i => i ≠ id) ∧
      (∀ x ∈ s.db.tables.entries, x.id = id ↔ x.hash = some content.hash) ∧
      ∃ e ∈ s'.db.tables.entries, e.id = id ∧
        ((e.id, content) ∈ created (some content) s.db.tables s'.db.tables ∨
          e.hash = some content.hash) := by
  have hcarries : ∀ x ∈ s.db.tables.entries, x.hash = some content.hash →
      ∀ y ∈ s.db.tables.entries, y.id = x.id ↔ y.hash = some content.hash := by
    intro x hx hxhash y hy
    constructor
    · intro hid
      rwa [hwf.idDistinct.eq hy hx hid]
    · intro hyhash
      rw [eq_of_countP_le_one (hwf.hashUnique content.hash) hx hy (by simp [hxhash])
        (by simp [hyhash])]
  cases hcopied with
  | failed hreceived => cases hreceived
  | ignored hreceived hverdict =>
    obtain rfl := Option.some.inj hreceived
    rw [hdedup] at hverdict
    obtain ⟨e, he, hhash, hrank⟩ := verdict_all_ignore hverdict
    exact ⟨e.id, ids_of_rank hwf he hrank, hcarries e he hhash, e, he, rfl, Or.inr hhash⟩
  | @moved _ id pos hreceived hverdict =>
    obtain rfl := Option.some.inj hreceived
    obtain ⟨x, hx, hxhash, rfl, -⟩ := verdict_move hverdict
    have hrows := movedFront_sameRows a name s.db.tables x.id pos s
    have hids := hrows.ids.trans (ids_moveEntry hwf a.now hx)
    obtain ⟨e, he, hid⟩ := mem_ids.mp (hids ▸ List.mem_cons_self)
    obtain ⟨y, hy, hyid, hyhash⟩ :=
      Changes.mem ((changes_moveEntry ..).tail hrows.change) he
    obtain rfl := hwf.idDistinct.eq hx hy (hid.symm.trans hyid.symm)
    exact ⟨x.id, hids, hcarries x hx hxhash, e, he, hid, Or.inr (hyhash ▸ hxhash)⟩
  | @added _ t f hreceived hverdict hadd =>
    obtain rfl := Option.some.inj hreceived
    rw [hdedup] at hverdict
    have hfresh := verdict_all_add hverdict
    have hrows := committed_sameRows a name (mapAttributes s.db.tables.nextId f t)
      s.db.tables.nextId s
    have hids : (s.committed a name (mapAttributes s.db.tables.nextId f t)
        s.db.tables.nextId).db.tables.ids = s.db.tables.nextId ::
          s.db.tables.ids.filter (fun i => i ≠ s.db.tables.nextId) := by
      rw [hrows.ids, ← view_fst, view_mapAttributes, view_fst, ids_addEntry hwf hadd]
    obtain ⟨e, he, hid⟩ := mem_ids.mp (hids ▸ List.mem_cons_self)
    refine ⟨s.db.tables.nextId, hids, ?_, e, he, hid, Or.inl ?_⟩
    · intro x hx
      exact iff_of_false (id_lt_nextId hx).ne (hfresh x hx)
    · rw [created, if_pos (idExists_iff.mpr ⟨e, he, hid⟩), hid]
      exact List.mem_singleton_self _

/-- Whatever the verdict, the entry with the content is first in the end. -/
theorem copied_broughtFront {C : Set Content} {origins : Origins} {content : Content}
    (hC : Set.InjOn Content.hash C) (hcontent : content ∈ C) (hdedup : s.config.dedup = .all)
    (hwf : s.db.tables.WF) (h : Hashed C origins s.db.tables)
    (hcopied : Copied a name (some content) s s') :
    ∃ e ∈ s'.db.tables.entries,
      BroughtFront origins content s.db.tables s'.db.tables e := by
  have h' : Hashed C (origins ++ created (some content) s.db.tables s'.db.tables) s'.db.tables :=
    h.evolves (fun _ hc => Option.mem_some.mp hc ▸ hcontent) (copied_evolves hdedup hcopied)
  obtain ⟨id, hids, hcarries, e, he, hid, hsource⟩ := copied_front hdedup hwf hcopied
  have hhash : e.hash = some content.hash := by
    cases hsource with
    | inl hnew => exact (Traced.of_mem h' he (List.mem_append_right _ hnew)).2
    | inr hhash => exact hhash
  refine ⟨e, he, broughtFront hC hcontent h h' (copied_wf hwf hcopied) he hhash hid hids ?_⟩
  rw [mem_ids]
  exact exists_congr fun x => and_congr_right (hcarries x)

end Copied

/-- The content that is received in a step. -/
def receivedContents (s : State) (i : Input) : List Content := (s.received i).toList

end State

/-! ## Runs -/

/-- No database call fails, and a restart keeps the mode. -/
structure DedupsAll (i : Input) : Prop where
  sql : ∀ n, (i.ambient n).sql = allOk
  restart : ∀ config, i.event = .restart config → config.dedup = .all

/-- Every row has its ordered list of types and data, and no other row has the same. -/
def NoDuplicates (x : State × Provenance) : Prop :=
  ∀ e ∈ x.1.db.tables.entries, ∃ content, (∀ other, (e.id, other) ∈ x.2.live ↔ other = content) ∧
    ∀ e' ∈ x.1.db.tables.entries, (e'.id, content) ∈ x.2.live → e' = e

/-- If a non-transient selection event is received, its content is in front before the trim. -/
def CopiesToFront (x : State × Provenance) (i : Input) : Prop :=
  ∀ name seat written timerOk content, i.event = .selection name (some written) timerOk →
    State.Delivers x.1 name seat → seat.mimeTypes ≠ [] → seat.transient = false →
    receiveAll x.1.config written 0 seat.mimeTypes = some content →
    let before := (x.1.withOffer name seat).beforeTrim (i.ambient 0) name written seat.mimeTypes
    step x.1 i = (before.trim (i.ambient 0)).clearMimeTypes name.1 ∧
      ∃ e ∈ before.db.tables.entries,
        BroughtFront x.2.live content x.1.db.tables before.db.tables e

section Runs
variable {C : Set Content} {x : State × Provenance} {i : Input}

theorem hashed_empty : Hashed C [] Tables.empty := traced_empty _

theorem step_hashed (hi : DedupsAll i) (hreceived : ∀ c ∈ x.1.receivedContents i, c ∈ C)
    (h : Keeps (Hashed C) x ∧ x.1.config.dedup = .all) :
    Keeps (Hashed C) (traceStep x i) ∧ (traceStep x i).1.config.dedup = .all := by
  obtain ⟨hkeeps, hdedup⟩ := h
  have hwf : x.1.db.tables.WF := hkeeps.reachable.wf.db.tables
  have hevolves : (∀ config, i.event ≠ .restart config) → _ := fun hsession =>
    State.step_evolves (i := i) (Q := fun content => ∀ e ∈ x.1.db.tables.entries,
      e.hash ≠ some content.hash) (fun name seat written timerOk _ _ => by
        have hhandled := State.wsignalSelection_handled (s := x.1.withOffer name seat) (hi.sql 0)
          hkeeps.saved hwf name written seat.mimeTypes seat.transient
        exact ⟨State.handled_evolves (s := x.1.withOffer name seat) hdedup hhandled,
          State.handled_saved hhandled hkeeps.saved⟩) hsession hkeeps.saved
  constructor
  · refine step_keeps hashed_empty Hashed.changes hkeeps fun hsession => ?_
    obtain ⟨hev, hsaved, hdisk, -⟩ := hevolves hsession
    exact ⟨Hashed.evolves hkeeps.live (fun c hc => hreceived c (by
      rw [State.receivedContents, Option.mem_def.mp hc]; simp)) hev, hsaved, hdisk⟩
  · rw [traceStep_fst]
    exact State.step_dedup hdedup hi.restart

theorem noDuplicates (h : Keeps (Hashed C) x) : NoDuplicates x := by
  intro e he
  obtain ⟨content, hmem, -⟩ := h.live.each e he
  refine ⟨content, fun other => ⟨fun hother => Traced.origin_unique h.live hother hmem,
    fun hother => hother ▸ hmem⟩, fun e' he' hmem' => ?_⟩
  exact h.live.eq_of_mem h.reachable.wf.db.tables he' he hmem' hmem

theorem copiesToFront (hC : Set.InjOn Content.hash C) (hi : DedupsAll i)
    (hreceived : ∀ c ∈ x.1.receivedContents i, c ∈ C)
    (h : Keeps (Hashed C) x ∧ x.1.config.dedup = .all) : CopiesToFront x i := by
  intro name seat written timerOk content hevent hdelivers hmime htransient hcontent
  have hwf : x.1.db.tables.WF := h.1.reachable.wf.db.tables
  have hmem : content ∈ C := by
    apply hreceived
    rw [State.receivedContents, State.received_delivered hevent hdelivers, hcontent]
    simp
  obtain ⟨event, ambient⟩ := i
  obtain rfl : event = .selection name (some written) timerOk := hevent
  obtain ⟨hstep, hcopied⟩ := step_stores hwf h.1.saved hdelivers hmime htransient (hi.sql 0) timerOk
    hcontent
  exact ⟨hstep, State.copied_broughtFront (s := (x.1.withOffer name seat).clearTransient) hC hmem
    h.2 hwf h.1.live hcopied⟩

end Runs

/-- With dedup mode "all", no two entries ever have the same content, and every copy ends up in
front without disturbing the rest. -/
theorem dedup_all {config : Config} (hdedup : config.dedup = .all) (a : Ambient)
    {inputs : List Input} (hinputs : ∀ i ∈ inputs, DedupsAll i)
    (hinj : Set.InjOn Content.hash
      {content | content ∈ record step State.receivedContents (boot config a) inputs}) :
    Meets traceStep (fun x i => NoDuplicates x ∧ CopiesToFront x i) (traceBoot config a) inputs ∧
      NoDuplicates (run traceStep (traceBoot config a) inputs) := by
  have hrecord : Meets step (fun s i => ∀ content ∈ s.receivedContents i,
      content ∈ record step State.receivedContents (boot config a) inputs) (boot config a) inputs :=
    meets_record.mpr fun content h => h
  have hmeets := ((Meets.map (f := Prod.fst) traceStep_fst (x := traceBoot config a)).mpr
    hrecord).and_of_mem hinputs
  let C : Set Content :=
    {content | content ∈ record step State.receivedContents (boot config a) inputs}
  have hboot : Keeps (Hashed C) (traceBoot config a) ∧ (boot config a).config.dedup = .all :=
    ⟨boot_keeps hashed_empty Hashed.changes config a, hdedup⟩
  have hstep : ∀ x i, Keeps (Hashed C) x ∧ x.1.config.dedup = .all →
      (∀ content ∈ x.1.receivedContents i, content ∈ C) ∧ DedupsAll i →
      Keeps (Hashed C) (traceStep x i) ∧ (traceStep x i).1.config.dedup = .all :=
    fun x i hx hi => step_hashed hi.2 hi.1 hx
  refine ⟨(hmeets.and_invariant hstep hboot).imp fun x i hxi => ?_, ?_⟩
  · exact ⟨noDuplicates hxi.1.1, copiesToFront hinj hxi.2.2 hxi.2.1 hxi.1⟩
  · exact noDuplicates (run_invariant hstep hboot hmeets).1

/-- Two texts are copied, and the first once more after a restart. Then the daemon has offered the
current entry first, and the copy cancels its source. -/
def copiedAfterRestart : List Input :=
  .quiet (.addSeat 0 seat0) :: (copy (0, .regular) [(textPlain, [65])] ++
    copy (0, .regular) [(textPlain, [66])] ++
    [.quiet (.restart configInit), .quiet (.addSeat 0 seat0),
      .quiet (.cancelled (0, .regular) true)] ++
    copy (0, .regular) [(textPlain, [65])])

theorem dedupsAll_copy (name : SelectionName) (content : Content) :
    ∀ i ∈ copy name content, DedupsAll i := fun i hi =>
  ⟨(undisturbed_copy _ content i hi).sql,
    fun config h => absurd h ((undisturbed_copy _ content i hi).session config)⟩

theorem copiedAfterRestart_dedupsAll : ∀ i ∈ copiedAfterRestart, DedupsAll i := by
  have hcopy := dedupsAll_copy (0, .regular)
  have hseat : DedupsAll (.quiet (.addSeat 0 seat0)) := ⟨fun _ => rfl, nofun⟩
  have hcancelled : DedupsAll (.quiet (.cancelled (0, .regular) true)) := ⟨fun _ => rfl, nofun⟩
  have hrestart : DedupsAll (.quiet (.restart configInit)) := by
    refine ⟨fun _ => rfl, fun config h => ?_⟩
    obtain rfl := Event.restart.inj h
    rfl
  simp only [copiedAfterRestart, List.forall_mem_append, List.forall_mem_cons, List.not_mem_nil,
    false_implies, implies_true, and_true]
  exact ⟨hseat, ⟨⟨hcopy _, hcopy _⟩, hrestart, hseat, hcancelled⟩, hcopy _⟩

theorem injOn_of_two {α β : Type*} {f : α → β} {a b : α} (hne : f a ≠ f b) {l : List α}
    (hl : ∀ x ∈ l, x = a ∨ x = b) : Set.InjOn f {x | x ∈ l} := by
  intro x hx y hy hsame
  rcases hl x hx with rfl | rfl <;> rcases hl y hy with rfl | rfl
  · rfl
  · exact absurd hsame hne
  · exact absurd hsame.symm hne
  · rfl

theorem texts_hash_ne : Content.hash [(textPlain, [65])] ≠ Content.hash [(textPlain, [66])] := by
  decide +kernel

/-- The first text has moved to the front. -/
theorem copiedAfterRestart_dedups :
    (run step (boot configInit (.quiet 0)) copiedAfterRestart).db.tables.ids = [1, 2] ∧
      Meets traceStep (fun x i => NoDuplicates x ∧ CopiesToFront x i)
        (traceBoot configInit (.quiet 0)) copiedAfterRestart ∧
      NoDuplicates (run traceStep (traceBoot configInit (.quiet 0)) copiedAfterRestart) := by
  have hrecord : record step State.receivedContents (boot configInit (.quiet 0))
      copiedAfterRestart = [[(textPlain, [65])], [(textPlain, [66])], [(textPlain, [65])]] := by
    decide +kernel
  refine ⟨by decide +kernel, dedup_all rfl (.quiet 0) copiedAfterRestart_dedupsAll ?_⟩
  rw [hrecord]
  exact injOn_of_two texts_hash_ne (by simp)

end Swayclip
