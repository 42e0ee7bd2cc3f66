import Swayclip.Daemon.Dedup
import Swayclip.Daemon.Integrity

/-! # Twice in a row

With dedup mode "prev", a copy is ignored if the first entry of the history carries its hash.
An entry loses its hash to a later one with the same content, and does not get it back when
that one is deleted, so the first entry may carry no hash at all.
-/

namespace Swayclip
open Library.Ranking Library.Runs Tables

namespace Tables

/-- Each entry was created with one of the contents `C`, and carries its hash if any. -/
def MaybeHashed (C : Set Content) : Origins → Tables → Prop :=
  Traced (fun e content => content ∈ C ∧ (e.hash = none ∨ e.hash = some content.hash))

section MaybeHashed
variable {C : Set Content} {origins : Origins} {t t' : Tables}

theorem maybeHashed_empty : MaybeHashed C [] Tables.empty := traced_empty _

theorem MaybeHashed.changes (h : MaybeHashed C origins t) (hc : Changes t t') :
    MaybeHashed C origins t' :=
  Traced.changes
    (R := fun hash content => content ∈ C ∧ (hash = none ∨ hash = some content.hash)) h hc

/-- The new entry takes the hash from the one that carries it. -/
theorem MaybeHashed.addEntry (h : MaybeHashed C origins t) {content : Content}
    (hcontent : content ∈ C) {now : ℤ} (hadd : t.addEntry now content = some t') :
    MaybeHashed C (origins ++ [(t.nextId, content)]) t' := by
  have hmem : ∀ e' ∈ t'.entries, (∃ e ∈ t.entries, e.id = e'.id ∧
      (e'.hash = none ∨ e'.hash = e.hash)) ∨ e'.id = t.nextId ∧ e'.hash = some content.hash := by
    intro e' he'
    rw [entries_addEntry hadd, List.mem_append, List.mem_map, List.mem_singleton] at he'
    rcases he' with ⟨e, he, rfl⟩ | rfl
    · refine Or.inl ⟨e, he, ?_⟩
      split
      · exact ⟨rfl, Or.inl rfl⟩
      · exact ⟨rfl, Or.inr rfl⟩
    · exact Or.inr ⟨rfl, rfl⟩
  refine Traced.addEntry h hadd (fun e' he' hid => ?_) fun e' he' hid => ?_
  · rcases hmem e' he' with ⟨e, he, heid, -⟩ | ⟨-, hhash⟩
    · exact absurd (heid.trans hid) (id_lt_nextId he).ne
    · exact ⟨hcontent, Or.inr hhash⟩
  · rcases hmem e' he' with ⟨e, he, heid, hhash⟩ | ⟨hnew, -⟩
    · refine ⟨e, he, heid, fun c hc => ⟨hc.1, ?_⟩⟩
      rcases hhash with hnone | hsame
      · exact Or.inl hnone
      · rw [hsame]
        exact hc.2
    · exact absurd hnew hid

theorem MaybeHashed.evolves {Q : Content → Prop} {now : ℤ} {received : Option Content}
    (h : MaybeHashed C origins t) (hreceived : ∀ content ∈ received, content ∈ C)
    (hs : Evolves Q now received t t') :
    MaybeHashed C (origins ++ created received t t') t' :=
  Traced.created hs h.changes fun content _ hrec _ hadd hc =>
    (h.addEntry (hreceived content hrec) hadd).changes hc

end MaybeHashed

theorem history_head_iff {t : Tables} (h : t.WF) {e : Entry} :
    t.history[0]? = some e ↔
      e ∈ t.entries ∧ rank Entry.sortIndex t.entries e.sortIndex = 0 := by
  constructor
  · intro hhead
    have he : e ∈ t.entries := mem_history.mp (List.mem_of_getElem? hhead)
    refine ⟨he, ?_⟩
    have hrank := sortDesc_getElem_rank h.sortDistinct he
    have hnodup : t.history.Nodup := (history_idDistinct h).nodup
    exact ((List.getElem?_inj (List.getElem?_eq_some_iff.mp hhead).1 hnodup).mp
      (hhead.trans hrank.symm)).symm
  · rintro ⟨he, hrank⟩
    rw [← hrank]
    exact sortDesc_getElem_rank h.sortDistinct he

end Tables

theorem verdict_prev_ne_move {hash : Digest} {t : Tables} {id pos : ℤ} :
    verdict .prev hash t ≠ .move id pos := by
  cases hpos : t.entryHashPos hash with
  | none => simp [verdict, hpos]
  | some p =>
    obtain ⟨id, pos⟩ := p
    simp only [verdict, hpos]
    split <;> exact fun h => by cases h

theorem verdict_prev_ignore_iff {hash : Digest} {t : Tables} (h : t.WF) :
    verdict .prev hash t = .ignore ↔ ∃ e, t.history[0]? = some e ∧ e.hash = some hash := by
  constructor
  · intro hverdict
    cases hpos : t.entryHashPos hash with
    | none => simp [verdict, hpos] at hverdict
    | some p =>
      obtain ⟨id, pos⟩ := p
      obtain ⟨e, he, hhash, -, hrank⟩ := entryHashPos_eq_some hpos
      simp only [verdict, hpos] at hverdict
      split at hverdict
      · exact ⟨e, (history_head_iff h).mpr ⟨he, by omega⟩, hhash⟩
      · cases hverdict
  · rintro ⟨e, hhead, hhash⟩
    obtain ⟨he, hrank⟩ := (history_head_iff h).mp hhead
    cases hpos : t.entryHashPos hash with
    | none => exact absurd hhash (entryHashPos_eq_none.mp hpos e he)
    | some p =>
      obtain ⟨id, pos⟩ := p
      obtain ⟨x, hx, hxhash, -, hxrank⟩ := entryHashPos_eq_some hpos
      obtain rfl : x = e := eq_of_countP_le_one (h.hashUnique hash) hx he (by simp [hxhash])
        (by simp [hhash])
      have hzero : pos = 0 := by rw [hxrank, hrank]; rfl
      simp [verdict, hpos, hzero]

/-! ## What a copy does to the history -/

/-- A new entry is added exactly if the first one does not have the content, and otherwise nothing
changes. -/
structure DecidedByFront (origins : Origins) (content : Content) (t t' : Tables) : Prop where
  added : t'.ids = t.nextId :: t.ids ↔ ∀ e, t.history[0]? = some e → (e.id, content) ∉ origins
  ignored : t'.ids = t.nextId :: t.ids ∨ t' = t

/-- If the first entry has the content, then it carries its hash. -/
def FrontHashed (origins : Origins) (content : Content) (t : Tables) : Prop :=
  ∀ e, t.history[0]? = some e → (e.id, content) ∈ origins → e.hash ≠ none

namespace State

/-- What is decided by the hash is decided by the content as long as the hash is there. -/
theorem copied_decidedByFront_iff {C : Set Content} {origins : Origins} {content : Content}
    {a : Ambient} {name : SelectionName} {s s' : State} (hC : Set.InjOn Content.hash C)
    (hcontent : content ∈ C) (hdedup : s.config.dedup = .prev) (hwf : s.db.tables.WF)
    (h : MaybeHashed C origins s.db.tables) (hcopied : Copied a name (some content) s s') :
    DecidedByFront origins content s.db.tables s'.db.tables ↔
      FrontHashed origins content s.db.tables := by
  cases hcopied with
  | failed hreceived => cases hreceived
  | moved _ hverdict =>
    rw [hdedup] at hverdict
    exact absurd hverdict verdict_prev_ne_move
  | ignored hreceived hverdict =>
    obtain rfl := Option.some.inj hreceived
    rw [hdedup] at hverdict
    obtain ⟨e, hhead, hhash⟩ := (verdict_prev_ignore_iff hwf).mp hverdict
    have he : e ∈ s.db.tables.entries := ((history_head_iff hwf).mp hhead).1
    -- the hash belongs to the content the entry was created with
    have hmem : (e.id, content) ∈ origins := by
      obtain ⟨old, hold, holdC, hnone | hsome⟩ := h.each e he
      · rw [hhash] at hnone
        cases hnone
      · have hsame : old.hash = content.hash := Option.some.inj (hsome.symm.trans hhash)
        rwa [hC holdC hcontent hsame] at hold
    constructor
    · intro _ x hx _
      obtain rfl : e = x := Option.some.inj (hhead.symm.trans hx)
      rw [hhash]
      exact Option.some_ne_none _
    · intro _
      refine ⟨⟨fun hids => ?_, fun hall => absurd hmem (hall e hhead)⟩, Or.inr rfl⟩
      have := congrArg List.length hids
      simp at this
  | @added _ t f hreceived hverdict hadd =>
    obtain rfl := Option.some.inj hreceived
    rw [hdedup] at hverdict
    have hnot : ¬ ∃ e, s.db.tables.history[0]? = some e ∧ e.hash = some content.hash := by
      rw [← verdict_prev_ignore_iff hwf, hverdict]
      exact nofun
    have hids : (s.committed a name (mapAttributes s.db.tables.nextId f t)
        s.db.tables.nextId).db.tables.ids = s.db.tables.nextId :: s.db.tables.ids := by
      rw [(committed_sameRows ..).ids, ← view_fst, view_mapAttributes, view_fst, ← view_fst,
        view_addEntry hwf hadd, List.map_cons, view_fst]
    constructor
    · intro hdecided e hhead hmem
      exact absurd hmem (hdecided.added.mp hids e hhead)
    · intro hfront
      refine ⟨⟨fun _ e hhead hmem => ?_, fun _ => hids⟩, Or.inl hids⟩
      have he : e ∈ s.db.tables.entries := ((history_head_iff hwf).mp hhead).1
      rcases (Traced.of_mem h he hmem).2 with hnone | hsome
      · exact hfront e hhead hmem hnone
      · exact hnot ⟨e, hhead, hsome⟩

end State

/-! ## Runs -/

/-- No database call fails, and a restart keeps the mode. -/
structure DedupsPrev (i : Input) : Prop where
  sql : ∀ n, (i.ambient n).sql = allOk
  restart : ∀ config, i.event = .restart config → config.dedup = .prev

/-- If a non-transient selection event is received, the first entry decides whether it is added
before the trim. -/
def ComparesWithFront (x : State × Provenance) (i : Input) : Prop :=
  ∀ name seat written timerOk content, i.event = .selection name (some written) timerOk →
    State.Delivers x.1 name seat → seat.mimeTypes ≠ [] → seat.transient = false →
    receiveAll x.1.config written 0 seat.mimeTypes = some content →
    let before := (x.1.withOffer name seat).beforeTrim (i.ambient 0) name written seat.mimeTypes
    step x.1 i = (before.trim (i.ambient 0)).clearMimeTypes name.1 ∧
      DecidedByFront x.2.live content x.1.db.tables before.db.tables

/-- The first entry has not lost the hash of a content that is received once more. -/
def FindsFrontHashed (x : State × Provenance) (i : Input) : Prop :=
  ∀ name seat written timerOk content, i.event = .selection name (some written) timerOk →
    State.Delivers x.1 name seat → seat.mimeTypes ≠ [] → seat.transient = false →
    receiveAll x.1.config written 0 seat.mimeTypes = some content →
    FrontHashed x.2.live content x.1.db.tables

section Runs
variable {C : Set Content} {x : State × Provenance} {i : Input}

theorem step_maybeHashed (hi : DedupsPrev i) (hreceived : ∀ c ∈ x.1.receivedContents i, c ∈ C)
    (h : Keeps (MaybeHashed C) x ∧ x.1.config.dedup = .prev) :
    Keeps (MaybeHashed C) (traceStep x i) ∧ (traceStep x i).1.config.dedup = .prev := by
  obtain ⟨hkeeps, hdedup⟩ := h
  have hwf : x.1.db.tables.WF := hkeeps.reachable.wf.db.tables
  have hevolves := fun hsession => State.step_evolves (s := x.1) (i := i) (Q := fun _ => True)
    (fun name seat written timerOk _ _ => State.wsignalSelection_evolves
      (s := x.1.withOffer name seat) (by rw [hi.sql 0]; rfl) (by rw [hi.sql 0]; rfl) hkeeps.saved
      hwf name written seat.mimeTypes seat.transient) hsession hkeeps.saved
  constructor
  · refine step_keeps maybeHashed_empty MaybeHashed.changes hkeeps fun hsession => ?_
    obtain ⟨hev, hsaved, hdisk, -⟩ := hevolves hsession
    exact ⟨MaybeHashed.evolves hkeeps.live (fun c hc => hreceived c (by
      rw [State.receivedContents, Option.mem_def.mp hc]; simp)) hev, hsaved, hdisk⟩
  · rw [traceStep_fst]
    exact State.step_dedup hdedup hi.restart

theorem comparesWithFront_iff (hC : Set.InjOn Content.hash C) (hi : DedupsPrev i)
    (hreceived : ∀ c ∈ x.1.receivedContents i, c ∈ C)
    (h : Keeps (MaybeHashed C) x ∧ x.1.config.dedup = .prev) :
    ComparesWithFront x i ↔ FindsFrontHashed x i := by
  have hwf : x.1.db.tables.WF := h.1.reachable.wf.db.tables
  obtain ⟨event, ambient⟩ := i
  refine forall₅_congr fun name seat written timerOk content => forall₅_congr
    fun hevent hdelivers hmime htransient hcontent => ?_
  have hmem : content ∈ C := by
    apply hreceived
    rw [State.receivedContents, State.received_delivered hevent hdelivers, hcontent]
    simp
  obtain rfl : event = .selection name (some written) timerOk := hevent
  obtain ⟨hstep, hcopied⟩ := step_stores hwf h.1.saved hdelivers hmime htransient (hi.sql 0) timerOk
    hcontent
  have hdecided := State.copied_decidedByFront_iff
    (s := (x.1.withOffer name seat).clearTransient) hC hmem h.2 hwf h.1.live hcopied
  exact ⟨fun hcompares => hdecided.mp hcompares.2, fun hfront => ⟨hstep, hdecided.mpr hfront⟩⟩

end Runs

/-- With dedup mode "prev", each copy is compared with the first entry exactly if that one has not
lost the hash of the same content. -/
theorem dedup_prev_iff {config : Config} (hdedup : config.dedup = .prev) (a : Ambient)
    {inputs : List Input} (hinputs : ∀ i ∈ inputs, DedupsPrev i)
    (hinj : Set.InjOn Content.hash
      {content | content ∈ record step State.receivedContents (boot config a) inputs}) :
    Meets traceStep ComparesWithFront (traceBoot config a) inputs ↔
      Meets traceStep FindsFrontHashed (traceBoot config a) inputs := by
  let C : Set Content :=
    {content | content ∈ record step State.receivedContents (boot config a) inputs}
  have hrecord : Meets step (fun s i => ∀ content ∈ s.receivedContents i, content ∈ C)
      (boot config a) inputs := meets_record.mpr fun content h => h
  have hmeets := ((Meets.map (f := Prod.fst) traceStep_fst (x := traceBoot config a)).mpr
    hrecord).and_of_mem hinputs
  have hboot : Keeps (MaybeHashed C) (traceBoot config a) ∧
      (boot config a).config.dedup = .prev :=
    ⟨boot_keeps maybeHashed_empty MaybeHashed.changes config a, hdedup⟩
  exact Meets.iff_of_meets
    (I := fun x => Keeps (MaybeHashed C) x ∧ x.1.config.dedup = .prev)
    (fun x i hx hi => comparesWithFront_iff hinj hi.2 hi.1 hx)
    (fun x i hx hi => step_maybeHashed hi.2 hi.1 hx) hboot hmeets

def configPrev : Config := { configInit with dedup := .prev }

/-- A text is copied, overtaken by another one, copied again, and the two later entries are
deleted. Then its offer is announced once more. -/
def overtakenThenDeleted : List Input :=
  [.quiet (.addSeat 0 seat0), .quiet (.connect 0)] ++ copy (0, .regular) [(textPlain, [65])] ++
    copy (0, .regular) [(textPlain, [66])] ++ copy (0, .regular) [(textPlain, [65])] ++
    [.quiet (.message 0 (some (.deleteEntry (some 3)))),
      .quiet (.message 0 (some (.deleteEntry (some 2))))] ++ offerEvents 0 [textPlain]

def copiedOnceMore : Input :=
  .quiet (.selection (0, .regular) (some fun i => [[65]][i]?) true)

theorem overtakenThenDeleted_dedupsPrev : ∀ i ∈ overtakenThenDeleted ++ [copiedOnceMore],
    DedupsPrev i := by
  have hundisturbed : ∀ i, State.Undisturbed i → DedupsPrev i := fun i hi =>
    ⟨hi.sql, fun config h => absurd h (hi.session config)⟩
  have hquiet : ∀ event, (∀ config, event ≠ .restart config) → DedupsPrev (.quiet event) :=
    fun event h => hundisturbed _ (undisturbed_quiet h)
  have hcopy : ∀ content, ∀ i ∈ copy (0, .regular) content, DedupsPrev i := fun content i hi =>
    hundisturbed i (undisturbed_copy _ content i hi)
  have hoffer : ∀ i ∈ offerEvents 0 [textPlain], DedupsPrev i := fun i hi =>
    hundisturbed i (undisturbed_offerEvents _ _ i hi)
  simp only [overtakenThenDeleted, copiedOnceMore, List.forall_mem_append, List.forall_mem_cons,
    List.not_mem_nil, false_implies, implies_true, and_true]
  exact ⟨⟨⟨⟨⟨⟨⟨hquiet _ nofun, hquiet _ nofun⟩, hcopy _⟩, hcopy _⟩, hcopy _⟩, hquiet _ nofun,
    hquiet _ nofun⟩, hoffer⟩, hquiet _ nofun⟩

theorem overtakenThenDeleted_compares_iff :
    (run step (boot configPrev (.quiet 0))
        (overtakenThenDeleted ++ [copiedOnceMore])).db.tables.ids = [4, 1] ∧
      (Meets traceStep ComparesWithFront (traceBoot configPrev (.quiet 0))
          (overtakenThenDeleted ++ [copiedOnceMore]) ↔
        Meets traceStep FindsFrontHashed (traceBoot configPrev (.quiet 0))
          (overtakenThenDeleted ++ [copiedOnceMore])) := by
  have hrecord : record step State.receivedContents (boot configPrev (.quiet 0))
      (overtakenThenDeleted ++ [copiedOnceMore]) = [[(textPlain, [65])], [(textPlain, [66])],
        [(textPlain, [65])], [(textPlain, [65])]] := by
    decide +kernel
  refine ⟨by decide +kernel, dedup_prev_iff rfl (.quiet 0) overtakenThenDeleted_dedupsPrev ?_⟩
  rw [hrecord]
  exact injOn_of_two texts_hash_ne (by simp)

/-- It is added although the first entry has the same content. -/
theorem overtakenThenDeleted_not_compared :
    ¬ Meets traceStep ComparesWithFront (traceBoot configPrev (.quiet 0))
      (overtakenThenDeleted ++ [copiedOnceMore]) := by
  intro h
  have hlast := (Meets.append.mp h).2.1
  obtain ⟨seat, hseat⟩ : ∃ seat, (run traceStep (traceBoot configPrev (.quiet 0))
      overtakenThenDeleted).1.findSeat 0 = some seat :=
    Option.isSome_iff_exists.mp (by decide +kernel)
  have hfound : ∀ seat ∈ (run traceStep (traceBoot configPrev (.quiet 0))
      overtakenThenDeleted).1.findSeat 0,
      let x := run traceStep (traceBoot configPrev (.quiet 0)) overtakenThenDeleted
      State.reaches .regular seat = true ∧ seat.mimeTypes ≠ [] ∧ seat.transient = false ∧
        receiveAll x.1.config (fun i => [[65]][i]?) 0 seat.mimeTypes = some [(textPlain, [65])] ∧
        ((x.1.withOffer (0, .regular) seat).beforeTrim (.quiet 0) (0, .regular)
          (fun i => [[65]][i]?) seat.mimeTypes).db.tables.ids =
          x.1.db.tables.nextId :: x.1.db.tables.ids ∧
        ∃ e ∈ x.1.db.tables.history[0]?, (e.id, [(textPlain, [65])]) ∈ x.2.live := by
    decide +kernel
  obtain ⟨hreaches, hmime, htransient, hreceived, hadded, e, hhead, hmem⟩ := hfound seat hseat
  have hdecided := (hlast (0, .regular) seat _ true [(textPlain, [65])] rfl
    (State.delivers_iff.mpr ⟨hseat, hreaches⟩) hmime htransient hreceived).2
  exact hdecided.added.mp hadded e hhead hmem

end Swayclip
