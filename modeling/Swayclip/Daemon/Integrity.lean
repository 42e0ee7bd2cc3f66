import Swayclip.Daemon.Provenance

/-! # Entries keep their data

Whatever fails inside a transaction, as long as it can be ended, and across restarts, every
entry answers with the data of the event that created it.
-/

namespace Swayclip
open Library.Runs Tables

/-- Any other statement may fail. -/
def EndsTransactions (i : Input) : Prop :=
  (i.ambient 0).sql .commitTransaction 0 = true ∧ (i.ambient 0).sql .rollbackTransaction 0 = true

namespace State

section Selection
variable {a : Ambient} {name : SelectionName} {s s' : State} {t : Tables}

theorem settled_evolves {received : Option Content} (h : Settled a name received s t s') :
    Evolves (fun _ => True) a.now received t s'.db.tables ∧ s'.db.saved = none := by
  cases h with
  | failed | ignored => exact ⟨.changed .refl, rfl⟩
  | notMoved _ _ hpart =>
    refine ⟨.changed ?_, rfl⟩
    rcases hpart with rfl | rfl
    · exact .refl
    · exact .single (change_updateSortIndex ..)
  | moved =>
    refine ⟨.changed ?_, set_saved ..⟩
    exact (changes_moveEntry ..).tail (movedFront_sameRows ..).change
  | added hreceived hadd =>
    refine ⟨.added hreceived trivial hadd ?_, set_saved ..⟩
    exact (Relation.ReflTransGen.single (mapAttributes_change ..)).tail
      (committed_sameRows ..).change

theorem wsignalSelection_evolves (hcommit : a.sql .commitTransaction 0 = true)
    (hrollback : a.sql .rollbackTransaction 0 = true) (hsaved : s.db.saved = none)
    (hwf : s.db.tables.WF) (name : SelectionName) (written : ℕ → Option Bytes)
    (mimeTypes : List CString) (transient : Bool) :
    let s' := s.wsignalSelection a name written mimeTypes transient
    Evolves (fun _ => True) a.now (receiveAll s.config written 0 mimeTypes) s.db.tables
        s'.db.tables ∧
      s'.db.saved = none := by
  simp only [wsignalSelection]
  split
  · exact ⟨.changed .refl, hsaved⟩
  · split
    · rw [storeTransient]
      dsimp only
      split
      · exact ⟨.changed .refl, hsaved⟩
      · rename_i data _
        have hrows := set_sameRows a.sql (some name) 0
          { s.clearTransient with id := -1, transient := data }
        exact ⟨.changed (.single hrows.change), (set_saved ..).trans hsaved⟩
    · split
      · exact ⟨.changed .refl, hsaved⟩
      · rename_i db hbegin
        have hdb : db = ⟨s.db.tables, some s.db.tables⟩ := by
          have hopen : (databaseDoTransaction (a.sql .beginImmediate 0) .immediate s.db) =
            (true, db) := hbegin
          cases hok : a.sql .beginImmediate 0 <;> rw [hok] at hopen <;>
            simp_all [databaseDoTransaction]
        let opened : State := { s.clearTransient with db := db }
        have hsettled : Settled a name (receiveAll opened.config written 0 mimeTypes) opened
            s.db.tables (opened.storeSelection a name written mimeTypes) :=
          storeSelection_settled hcommit hrollback hdb hwf
        obtain ⟨hevolves, hnone⟩ := settled_evolves hsettled
        exact ⟨hevolves.trans (trim_changes a _), (trim_saved a _).trans hnone⟩

end Selection

end State

theorem step_intact {D : Set Bytes} (hD : Set.InjOn sha256 D) {x : State × Provenance} {i : Input}
    (hends : EndsTransactions i) (hdata : ∀ data ∈ x.1.receivedData i, data ∈ D)
    (h : Keeps (Intact D) x) : Keeps (Intact D) (traceStep x i) := by
  have hwf : x.1.db.tables.WF := h.reachable.wf.db.tables
  refine step_keeps (intact_empty D) Intact.changes h fun hsession => ?_
  obtain ⟨hevolves, hsaved, hdisk, -⟩ := State.step_evolves (s := x.1)
    (fun name seat written timerOk _ _ => State.wsignalSelection_evolves
      (s := x.1.withOffer name seat) hends.1 hends.2 h.saved hwf name written seat.mimeTypes
      seat.transient) hsession h.saved
  have hreceived : ∀ content ∈ x.1.received i, ∀ e ∈ content, e.2 ∈ D := by
    intro content hcontent e he
    apply hdata
    rw [State.receivedData, Option.mem_def.mp hcontent]
    simpa using ⟨e.1, he⟩
  exact ⟨h.live.evolves hwf hD hreceived hevolves, hsaved, hdisk⟩

/-- Every entry, in every state that is reached, answers with the data received for the first
occurrence of each type in the event that created it. -/
theorem entries_keep_data (config : Config) (a : Ambient) {inputs : List Input}
    (hends : ∀ i ∈ inputs, EndsTransactions i)
    (hinj : Set.InjOn sha256
      {data | data ∈ record step State.receivedData (boot config a) inputs}) :
    let x := run traceStep (traceBoot config a) inputs
    x.1 = run step (boot config a) inputs ∧ ∀ e ∈ x.1.db.tables.entries, ∃ content,
      (∀ other, (e.id, other) ∈ x.2.live ↔ other = content) ∧
        ∀ m ∈ x.1.db.tables.getMimeTypes e.id, ∃ data, content.first m = some data ∧
          databaseGetData true e.id m x.1.db = readable data := by
  intro x
  have hfst : x.1 = run step (boot config a) inputs :=
    run_map (f := Prod.fst) traceStep_fst (traceBoot config a) inputs
  have hrecord : Meets step (fun s i => ∀ data ∈ s.receivedData i,
      data ∈ record step State.receivedData (boot config a) inputs) (boot config a) inputs :=
    meets_record.mpr fun data h => h
  have hmeets := (Meets.map (f := Prod.fst) traceStep_fst (x := traceBoot config a)).mpr hrecord
  have hkeeps := run_invariant (fun x i hx hi => step_intact hinj hi.2 hi.1 hx)
    (boot_keeps (intact_empty _) Intact.changes config a) (hmeets.and_of_mem hends)
  refine ⟨hfst, fun e he => ?_⟩
  obtain ⟨content, hmem, htypes, hget⟩ := hkeeps.live.traced.each e he
  refine ⟨content, fun other => ⟨fun h => hkeeps.live.traced.origin_unique h hmem,
    fun h => h ▸ hmem⟩, fun m hm => ?_⟩
  obtain ⟨data, hdata⟩ := Option.isSome_iff_exists.mp
    (Content.first_isSome.mpr ((htypes m).mp hm))
  refine ⟨data, hdata, ?_⟩
  rw [databaseGetData, if_pos rfl, hget, hdata, Option.bind_some]

/-- Two entries share a row of `Data`, and the first of them is deleted. -/
def sharedThenDeleted : List Input :=
  [.quiet (.addSeat 0 seat0), .quiet (.connect 0)] ++ copy (0, .regular) [(textPlain, [65])] ++
    copy (0, .regular) [(textPlain, [65]), (textPlainUtf8, [66])] ++
    [.quiet (.message 0 (some (.deleteEntry (some 1))))]

theorem sharedThenDeleted_undisturbed : ∀ i ∈ sharedThenDeleted, State.Undisturbed i := by
  simp only [sharedThenDeleted, List.forall_mem_append, List.forall_mem_cons, List.not_mem_nil,
    false_implies, implies_true, and_true]
  exact ⟨⟨⟨⟨undisturbed_quiet nofun, undisturbed_quiet nofun⟩, undisturbed_copy _ _⟩,
    undisturbed_copy _ _⟩, undisturbed_quiet nofun⟩

/-- The second entry has kept the data. -/
theorem sharedThenDeleted_keeps_data :
    let x := run traceStep (traceBoot configInit (.quiet 0)) sharedThenDeleted
    x.1.db.tables.entries.map Entry.id = [2] ∧ x.1.db.tables.getData 2 textPlain = some [65] ∧
      ∀ e ∈ x.1.db.tables.entries, ∃ content,
        (∀ other, (e.id, other) ∈ x.2.live ↔ other = content) ∧
          ∀ m ∈ x.1.db.tables.getMimeTypes e.id, ∃ data, content.first m = some data ∧
            databaseGetData true e.id m x.1.db = readable data := by
  have hrecord : record step State.receivedData (boot configInit (.quiet 0)) sharedThenDeleted =
      [[65], [65], [66]] := by decide +kernel
  have hends : ∀ i ∈ sharedThenDeleted, EndsTransactions i := fun i hi => by
    rw [EndsTransactions, (sharedThenDeleted_undisturbed i hi).sql]
    exact ⟨rfl, rfl⟩
  have hdigests : sha256 [65] ≠ sha256 [66] := by decide +kernel
  have hinj : Set.InjOn sha256 {data | data ∈ record step State.receivedData
      (boot configInit (.quiet 0)) sharedThenDeleted} := by
    have hdata : ∀ x ∈ ([[65], [65], [66]] : List Bytes), x = [65] ∨ x = [66] := by simp
    rw [hrecord]
    intro x hx y hy hsha
    rcases hdata x hx with rfl | rfl <;> rcases hdata y hy with rfl | rfl
    · rfl
    · exact absurd hsha hdigests
    · exact absurd hsha.symm hdigests
    · rfl
  obtain ⟨-, hkept⟩ := entries_keep_data configInit (.quiet 0) hends hinj
  refine ⟨by decide +kernel, by decide +kernel, hkept⟩

end Swayclip
