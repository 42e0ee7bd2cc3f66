import Swayclip.Daemon.Committed
import Swayclip.Database.Leaks

/-! # No leaked data

Whatever fails, the committed tables have only data that some entry has, as long as no event
is stored that leaves other data behind.
-/

namespace Swayclip
open Library.Runs Tables

/-- Neither the database in use nor the file that the next session finds has leaked data. -/
structure State.NoLeak (s : State) : Prop where
  committed : s.db.committed.NoLeak
  file : s.file.NoLeak

/-- If the event is stored, then the digest of all its data is referenced in the end. -/
def State.KeepsReferences (s : State) (i : Input) : Prop :=
  ∀ content, s.stored i = some content → s.db.committed.Refers content

/-- What is committed is in the file, or the file is not touched. -/
theorem noLeak_of_session {s s' : State} (h : s.NoLeak) (hdisk : s'.disk = s.disk)
    (hconfig : s'.config = s.config) : s'.NoLeak ↔ s'.db.committed.NoLeak := by
  refine ⟨fun h' => h'.committed, fun h' => ⟨h', ?_⟩⟩
  have hfile := h.file
  rw [State.file] at hfile ⊢
  rw [hconfig, hdisk]
  split at hfile <;> rename_i hpersist
  · rw [if_pos hpersist]
    exact h'
  · rw [if_neg hpersist]
    exact hfile

theorem noLeak_startup {disk : Tables} (hwf : disk.WF) (h : disk.NoLeak) (config : Config)
    (a : Ambient) : (State.startup config a disk).NoLeak := by
  have hcommitted : (State.startup config a disk).db.committed.NoLeak := by
    rw [noLeak_iff (State.startup_wf hwf config a).db.committed,
      collected_changes (State.startup_committed config a disk)]
    split
    · exact (noLeak_iff hwf).mp h
    · exact collected_empty
  exact ⟨hcommitted, State.file_of hcommitted h⟩

theorem step_noLeak_iff {s : State} (hreach : Reachable s) (h : s.NoLeak) (i : Input) :
    (step s i).NoLeak ↔ s.KeepsReferences i := by
  have hcollected : s.db.committed.Collected :=
    (noLeak_iff hreach.wf.db.committed).mp h.committed
  by_cases hrestart : ∃ config, i.event = .restart config
  · obtain ⟨config, hevent⟩ := hrestart
    obtain ⟨event, ambient⟩ := i
    obtain rfl : event = .restart config := hevent
    have hnext : (step s ⟨.restart config, ambient⟩).NoLeak :=
      noLeak_startup (State.file_wf hreach.wf) h.file config (ambient 0)
    exact ⟨fun _ content hstored => (nomatch hstored), fun _ => hnext⟩
  · have hsession : ∀ config, i.event ≠ .restart config := fun config he => hrestart ⟨config, he⟩
    obtain ⟨hdisk, hconfig⟩ := State.step_disk (s := s) hsession
    have hcommits := State.step_commits hreach.wf.db hsession
    rw [noLeak_of_session h hdisk hconfig, noLeak_iff (hreach.step i).wf.db.committed,
      State.KeepsReferences]
    generalize s.stored i = stored at hcommits ⊢
    cases hcommits with
    | nothing hchanges =>
      rw [collected_changes hchanges]
      exact ⟨fun _ content hstored => (nomatch hstored), fun _ => hcollected⟩
    | @entry content t₁ _ hadd hchanges =>
      rw [collected_changes hchanges, collected_addEntry_iff hreach.wf.db.committed hcollected hadd]
      exact ⟨fun hrefers other hother => Option.some.inj hother ▸ hrefers,
        fun hall => hall content rfl⟩

/-- Nothing is leaked just as long as the events that are stored refer to all their data. -/
theorem no_leak_iff (config : Config) (a : Ambient) (inputs : List Input) :
    (∀ is, is <+: inputs → (run step (boot config a) is).NoLeak) ↔
      Meets step State.KeepsReferences (boot config a) inputs :=
  throughout_iff (I := Reachable) (P := State.NoLeak) (fun _ i hreach => hreach.step i)
    (fun _ i hreach h => step_noLeak_iff hreach h i) (.boot config a)
    (noLeak_startup empty_wf ((noLeak_iff empty_wf).mpr collected_empty) config a)

/-- One type is offered twice, and the source writes something else the second time. Then the entry
is deleted. -/
def offeredTwice : List Input :=
  [.quiet (.addSeat 0 seat0), .quiet (.connect 0)] ++
    copy (0, .regular) [(textPlain, [65]), (textPlain, [66])] ++
    [.quiet (.message 0 (some (.deleteEntry (some 1))))]

/-- The second text is still there. -/
theorem offeredTwice_leaks : ¬ (run step (boot configInit (.quiet 0)) offeredTwice).NoLeak := by
  intro h
  have hreferenced := h.committed.referenced
  revert hreferenced
  decide +kernel

end Swayclip
