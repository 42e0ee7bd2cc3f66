import Swayclip.Daemon.CurrentEntry
import Swayclip.Daemon.Dedup
import Swayclip.Library.Spelling
import Swayclip.Wayland.Offer

/-! # What the hash tells about the content

The hash of an entry is taken over its mime types and the digests of their data, in the order of
the offer and with nothing in between. So it depends on the order, which the tables do not keep,
and a mime type that contains a digest can make two contents look the same.
-/

namespace Swayclip
open Library.Ranking Library.Runs Library.Spelling Tables

namespace Content

def word (e : CString × Bytes) : Bytes := e.1.bytes ++ (sha256 e.2).bytes

/-- The variable `entry_hash` after a loop over all of the content. -/
def entryHash (content : Content) : Digest :=
  Sha256.final (content.foldl (fun shaCtx e =>
    Sha256.update (Sha256.update shaCtx e.1.bytes) (sha256 e.2).bytes) Sha256.init)

/-- All strings that are hashed for the content. -/
def strings (content : Content) : List Bytes := content.hashed :: content.map Prod.snd

theorem foldl_update (content : Content) (shaCtx : Sha256.Ctx) :
    content.foldl (fun shaCtx e =>
      Sha256.update (Sha256.update shaCtx e.1.bytes) (sha256 e.2).bytes) shaCtx =
      Sha256.update shaCtx content.hashed := by
  induction content generalizing shaCtx with
  | nil => rfl
  | cons e content ih =>
    rw [List.foldl_cons, ih, hashed, hashed, List.flatMap_cons, Sha256.update_append,
      Sha256.update_append]

theorem entryHash_eq_hash (content : Content) : content.entryHash = content.hash := by
  rw [entryHash, foldl_update]
  rfl

theorem word_ne_nil (e : CString × Bytes) : word e ≠ [] := by
  intro h
  have hsize := (sha256 e.2).size
  simp [(List.append_eq_nil_iff.mp h).2] at hsize

/-- A digest has a fixed size, so that one word can be taken apart. -/
theorem word_inj {a b : CString × Bytes} (hdata : sha256 a.2 = sha256 b.2 → a.2 = b.2)
    (h : word a = word b) : a = b := by
  have hsize : (sha256 a.2).bytes.length = (sha256 b.2).bytes.length := by
    rw [(sha256 a.2).size, (sha256 b.2).size]
  obtain ⟨hmime, hdigest⟩ := List.append_inj' h hsize
  have htype : a.1 = b.1 := by
    cases ha : a.1
    cases hb : b.1
    simpa [ha, hb] using hmime
  have hsame : sha256 a.2 = sha256 b.2 := by
    cases ha : sha256 a.2
    cases hb : sha256 b.2
    simpa [ha, hb] using hdigest
  exact Prod.ext htype (hdata hsame)

/-- Without a collision of SHA-256, contents with one hash are the same or ambiguous. -/
theorem entryHash_eq_iff {c₁ c₂ : Content}
    (hsha : Set.InjOn sha256 {s | s ∈ c₁.strings ++ c₂.strings}) :
    c₁.entryHash = c₂.entryHash ↔ c₁ = c₂ ∨ Ambiguous word c₁ c₂ := by
  have hdata : ∀ a ∈ c₁, ∀ b ∈ c₂, word a = word b → a = b := by
    intro a ha b hb
    apply word_inj
    apply hsha
    · simp only [strings, List.cons_append, List.mem_cons, List.mem_append]
      exact Or.inr (Or.inl (List.mem_map_of_mem ha))
    · simp only [strings, List.cons_append, List.mem_cons, List.mem_append]
      exact Or.inr (Or.inr (Or.inr (List.mem_map_of_mem hb)))
  have hhashed : c₁.entryHash = c₂.entryHash ↔ c₁.hashed = c₂.hashed := by
    rw [entryHash_eq_hash, entryHash_eq_hash]
    constructor
    · intro h
      exact hsha (by simp [strings]) (by simp [strings]) h
    · intro h
      rw [hash, hash, h]
  rw [hhashed]
  exact flatMap_eq_iff word_ne_nil hdata

end Content

/-- A loop that got through has made the hash of what was received. -/
theorem receiveMimeTypes_entryHash {config : Config} {sql : Sql} {written : ℕ → Option Bytes}
    {id : ℤ} {mimeTypes : List CString} {db : Database} {r : Receiving}
    (h : receiveMimeTypes config sql written id 0 mimeTypes ⟨db, Sha256.init, .unknown, none⟩ =
      (true, r)) :
    ∃ content : Content, receiveAll config written 0 mimeTypes = some content ∧
      Sha256.final r.shaCtx = content.entryHash := by
  obtain ⟨content, hcontent, -, hsha⟩ := receiveMimeTypes_true h
  refine ⟨content, hcontent, ?_⟩
  rw [hsha, Content.entryHash, Content.foldl_update]

/-! ## Soundness -/

/-- Contents with one hash are the same, exactly if they are not ambiguous. -/
theorem entryHash_sound_iff {c₁ c₂ : Content}
    (hsha : Set.InjOn sha256 {s | s ∈ c₁.strings ++ c₂.strings}) :
    (c₁.entryHash = c₂.entryHash → c₁ = c₂) ↔ ¬ Ambiguous Content.word c₁ c₂ := by
  rw [Content.entryHash_eq_iff hsha]
  constructor
  · intro h hambiguous
    exact hambiguous.ne (h (Or.inr hambiguous))
  · intro hnot h
    exact h.resolve_right hnot

/-- Different digests of different strings. -/
theorem injOn_of_nodup {l : List Bytes} (h : (l.map sha256).Nodup) :
    Set.InjOn sha256 {s | s ∈ l} :=
  fun _ hx _ hy hsame => List.inj_on_of_nodup_map h hx hy hsame

def textAndPage : Content := [(textPlain, [65]), (textHtml, [66])]

def otherText : Content := [(textPlain, [67]), (textHtml, [68])]

theorem texts_sound :
    (textAndPage.entryHash = otherText.entryHash → textAndPage = otherText) ↔
      ¬ Ambiguous Content.word textAndPage otherText :=
  entryHash_sound_iff (injOn_of_nodup (by decide +kernel))

/-- A mime type that continues as the hash of `textAndPage` does. -/
def forgedType : CString where
  bytes := textPlain.bytes ++ (sha256 [65]).bytes ++ textHtml.bytes
  nonul := by decide +kernel

def forged : Content := [(forgedType, [66])]

theorem strings_forged : ∀ s ∈ textAndPage.strings ++ forged.strings,
    s ∈ [textAndPage.hashed, [65], [66]] := by
  have hsame : forged.hashed = textAndPage.hashed := by
    simp [forged, textAndPage, forgedType, Content.hashed]
  have hlist : textAndPage.strings ++ forged.strings =
      [textAndPage.hashed, [65], [66], textAndPage.hashed, [66]] := by
    rw [Content.strings, Content.strings, hsame]
    rfl
  intro s hs
  rw [hlist] at hs
  simp only [List.mem_cons, List.not_mem_nil, or_false] at hs ⊢
  rcases hs with h | h | h | h | h <;> simp [h]

/-- A copy whose only type is forged is taken for the text with its page, and discarded. -/
theorem forged_discarded :
    Set.InjOn sha256 {s | s ∈ textAndPage.strings ++ forged.strings} ∧
      textAndPage.entryHash = forged.entryHash ∧ textAndPage ≠ forged ∧
      (run step (firstSession configInit)
          (copy (0, .regular) textAndPage ++ copy (0, .regular) forged)).db.tables.ids = [1] ∧
      (run step (firstSession configInit)
          (copy (0, .regular) textAndPage ++ copy (0, .regular) forged)).db.tables.getMimeTypes 1 =
        [textHtml, textPlain] := by
  refine ⟨?_, by decide +kernel, by decide, by decide +kernel⟩
  have hinj : Set.InjOn sha256 {s | s ∈ [textAndPage.hashed, [65], [66]]} :=
    injOn_of_nodup (by decide +kernel)
  exact hinj.mono strings_forged

/-! ## Completeness -/

/-- The entry `id` is in front, the others are in the order in which they were, and there is no
other one. -/
def MovesEntry (x : State × Provenance) (i : Input) (id : ℤ) : Prop :=
  ∀ name seat written timerOk, i.event = .selection name (some written) timerOk →
    State.Delivers x.1 name seat →
    let before := (x.1.withOffer name seat).beforeTrim (i.ambient 0) name written seat.mimeTypes
    step x.1 i = (before.trim (i.ambient 0)).clearMimeTypes name.1 ∧
      before.db.tables.ids = id :: x.1.db.tables.ids.filter (fun other => other ≠ id)

/-- The entry `e` was created for the content `c₁`, and a non-transient event brings `c₂`, which
would be stored as the same rows. -/
structure CopiedAgain (x : State × Provenance) (i : Input) (e : Entry) (c₁ c₂ : Content) : Prop
    where
  entry : e ∈ x.1.db.tables.entries
  origin : (e.id, c₁) ∈ x.2.live
  event : ∃ name seat written timerOk, i.event = .selection name (some written) timerOk ∧
    State.Delivers x.1 name seat ∧ seat.mimeTypes ≠ [] ∧ seat.transient = false ∧
    receiveAll x.1.config written 0 seat.mimeTypes = some c₂
  rows : ∀ m, c₁.first m = c₂.first m

/-- The entry that carries the hash of the copy is the one that moves. -/
theorem movesEntry_iff {C : Set Content} {x : State × Provenance} {i : Input} {e : Entry}
    {c₁ c₂ : Content} (hi : DedupsAll i) (h : Keeps (Hashed C) x ∧ x.1.config.dedup = .all)
    (hcopied : CopiedAgain x i e c₁ c₂) :
    MovesEntry x i e.id ↔ c₁.entryHash = c₂.entryHash := by
  have hwf : x.1.db.tables.WF := h.1.reachable.wf.db.tables
  have hhash : e.hash = some c₁.hash := (Traced.of_mem h.1.live hcopied.entry hcopied.origin).2
  rw [Content.entryHash_eq_hash, Content.entryHash_eq_hash]
  have hfront : ∀ name seat written timerOk, i.event = .selection name (some written) timerOk →
      State.Delivers x.1 name seat → seat.mimeTypes ≠ [] → seat.transient = false →
      receiveAll x.1.config written 0 seat.mimeTypes = some c₂ →
      let before := (x.1.withOffer name seat).beforeTrim (i.ambient 0) name written seat.mimeTypes
      step x.1 i = (before.trim (i.ambient 0)).clearMimeTypes name.1 ∧
        ∃ id, before.db.tables.ids = id :: x.1.db.tables.ids.filter (fun other => other ≠ id) ∧
          (e.id = id ↔ c₁.hash = c₂.hash) := by
    intro name seat written timerOk hevent hdelivers hmime htransient hcontent
    obtain ⟨event, ambient⟩ := i
    obtain rfl : event = .selection name (some written) timerOk := hevent
    obtain ⟨hstep, hstored⟩ := step_stores hwf h.1.saved hdelivers hmime htransient (hi.sql 0)
      timerOk hcontent
    obtain ⟨id, hids, hcarries, -⟩ := State.copied_front
      (s := (x.1.withOffer name seat).clearTransient) h.2 hwf hstored
    refine ⟨hstep, id, hids, ?_⟩
    rw [hcarries e hcopied.entry, hhash, Option.some.injEq]
  obtain ⟨name, seat, written, timerOk, hevent, hdelivers, hmime, htransient, hcontent⟩ :=
    hcopied.event
  constructor
  · intro hmoves
    obtain ⟨-, id, hids, hid⟩ :=
      hfront name seat written timerOk hevent hdelivers hmime htransient hcontent
    obtain ⟨-, hmoved⟩ := hmoves name seat written timerOk hevent hdelivers
    rw [hids] at hmoved
    exact hid.mp (List.cons.inj hmoved).1.symm
  · intro hsame name' seat' written' timerOk' hevent' hdelivers'
    obtain ⟨rfl, hwritten, rfl⟩ := Event.selection.inj (hevent.symm.trans hevent')
    obtain rfl := Option.some.inj hwritten
    obtain rfl : seat = seat' := by
      have hseat := (State.delivers_iff.mp hdelivers).1
      have hseat' := (State.delivers_iff.mp hdelivers').1
      exact Option.some.inj (hseat.symm.trans hseat')
    obtain ⟨hstep, id, hids, hid⟩ :=
      hfront name seat written timerOk hevent hdelivers hmime htransient hcontent
    obtain rfl := hid.mpr hsame
    exact ⟨hstep, hids⟩

/-- With dedup mode "all", a copy with the rows of an entry has its hash and moves it, exactly if
the types came in the same order, or if the two contents are ambiguous. -/
theorem copiedAgain_iff {config : Config} (hdedup : config.dedup = .all) (a : Ambient)
    {inputs : List Input} (hinputs : ∀ i ∈ inputs, DedupsAll i) {i : Input} (hi : DedupsAll i)
    {e : Entry} {c₁ c₂ : Content}
    (hcopied : CopiedAgain (run traceStep (traceBoot config a) inputs) i e c₁ c₂)
    (hsha : Set.InjOn sha256 {s | s ∈ c₁.strings ++ c₂.strings}) :
    (c₁.entryHash = c₂.entryHash ∧
        MovesEntry (run traceStep (traceBoot config a) inputs) i e.id) ↔
      c₁ = c₂ ∨ Ambiguous Content.word c₁ c₂ := by
  have hboot : Keeps (Hashed Set.univ) (traceBoot config a) ∧
      (boot config a).config.dedup = .all :=
    ⟨boot_keeps hashed_empty Hashed.changes config a, hdedup⟩
  have hmeets : Meets traceStep (fun _ i => DedupsAll i) (traceBoot config a) inputs :=
    Meets.of_mem fun i hi _ => hinputs i hi
  have hruns := run_invariant (I := fun x => Keeps (Hashed Set.univ) x ∧ x.1.config.dedup = .all)
    (fun x i hx hi => step_hashed hi (fun c _ => Set.mem_univ c) hx) hboot hmeets
  rw [movesEntry_iff hi hruns hcopied, and_self]
  exact Content.entryHash_eq_iff hsha

def textOfferedAgain : List Input :=
  .quiet (.addSeat 0 seat0) ::
    (copy (0, .regular) textAndPage ++ (copy (0, .regular) otherText ++
      offerEvents 0 (textAndPage.map Prod.fst)))

def receivedAgain : Input :=
  .quiet (.selection (0, .regular) (some fun i => textAndPage[i]?.map Prod.snd) true)

theorem textOfferedAgain_dedupsAll : ∀ i ∈ textOfferedAgain, DedupsAll i := by
  have hcopy := dedupsAll_copy (0, .regular) textAndPage
  simp only [textOfferedAgain, List.forall_mem_cons, List.forall_mem_append]
  refine ⟨⟨fun _ => rfl, fun config h => by cases h⟩, hcopy,
    dedupsAll_copy (0, .regular) otherText, ?_⟩
  intro i hi
  exact hcopy i (List.mem_append_left _ hi)

theorem textOfferedAgain_moves : ∃ e,
    CopiedAgain (run traceStep (traceBoot configInit (.quiet 0)) textOfferedAgain) receivedAgain e
        textAndPage textAndPage ∧
      ((textAndPage.entryHash = textAndPage.entryHash ∧
          MovesEntry (run traceStep (traceBoot configInit (.quiet 0)) textOfferedAgain)
            receivedAgain e.id) ↔
        textAndPage = textAndPage ∨ Ambiguous Content.word textAndPage textAndPage) := by
  have hentry : (run traceStep (traceBoot configInit (.quiet 0))
      textOfferedAgain).1.db.tables.entries.any (fun e => (run traceStep
        (traceBoot configInit (.quiet 0)) textOfferedAgain).2.live.contains (e.id, textAndPage)) =
      true := by decide +kernel
  obtain ⟨e, he, horigin⟩ := List.any_eq_true.mp hentry
  obtain ⟨seat, hdelivers, hseat⟩ := exists_delivers
    (run traceStep (traceBoot configInit (.quiet 0)) textOfferedAgain).1 (0, .regular)
    (fun seat => seat.mimeTypes = [textPlain, textHtml] && !seat.transient) (by decide +kernel)
  simp only [Bool.and_eq_true, decide_eq_true_eq, Bool.not_eq_true'] at hseat
  have hcopied : CopiedAgain (run traceStep (traceBoot configInit (.quiet 0)) textOfferedAgain)
      receivedAgain e textAndPage textAndPage := by
    refine ⟨he, by simpa using horigin, ?_, (fun m => rfl)⟩
    refine ⟨(0, .regular), seat, _, true, rfl, hdelivers, ?_, hseat.2, ?_⟩
    · simp [hseat.1]
    · rw [hseat.1]
      decide +kernel
  refine ⟨e, hcopied, copiedAgain_iff rfl (.quiet 0) textOfferedAgain_dedupsAll
    ⟨fun _ => rfl, fun config h => by cases h⟩ hcopied ?_⟩
  have hinj : Set.InjOn sha256 {s | s ∈ textAndPage.strings} := injOn_of_nodup (by decide +kernel)
  exact hinj.mono fun s hs => (List.mem_append.mp hs).elim id id

/-- The text and its form as a web page, offered the other way round. -/
def pageAndText : Content := [(textHtml, [66]), (textPlain, [65])]

theorem pageAndText_first (m : CString) : textAndPage.first m = pageAndText.first m := by
  have hne : textPlain ≠ textHtml := by decide
  by_cases hplain : textPlain = m
  · subst hplain
    simp [textAndPage, pageAndText, Content.first, hne.symm]
  · by_cases hhtml : textHtml = m <;>
      simp [textAndPage, pageAndText, Content.first, hplain, hhtml]

/-- The same types with the same data are stored twice. -/
theorem pageAndText_duplicated :
    (∀ m, textAndPage.first m = pageAndText.first m) ∧
      textAndPage.entryHash ≠ pageAndText.entryHash ∧ configInit.dedup = .all ∧
      let s := run step (firstSession configInit)
        (copy (0, .regular) textAndPage ++ copy (0, .regular) pageAndText)
      s.db.tables.ids = [2, 1] ∧ s.db.tables.getMimeTypes 1 = s.db.tables.getMimeTypes 2 ∧
        ∀ m ∈ [textHtml, textPlain], s.db.tables.getData 1 m = s.db.tables.getData 2 m :=
  ⟨pageAndText_first, by decide +kernel, rfl, by decide +kernel⟩

end Swayclip
