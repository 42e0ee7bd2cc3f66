import Swayclip.Daemon.Committed
import Swayclip.Database.Archive

/-! # Entries in the file are permanent

Over all sessions, whatever fails in them, the file is an archive of what was copied: entries go,
but they do not change their content, and an id that has been given to one entry is not given to
another.
-/

namespace Swayclip
open Library Library.Runs Tables

theorem Commits.later {now : ℤ} {t t' : Tables} {stored : Option Content}
    (h : Commits now t stored t') (hwf : t.WF) : t.archive.Later t'.archive := by
  cases h with
  | nothing h => exact (h.later hwf.idSeq).1
  | entry hadd h =>
    exact (later_addEntry hwf hadd).trans (h.later (addEntry_wf hwf hadd).idSeq).1

theorem startup_later {file : Tables} (h : file.WF) (config : Config) (a : Ambient) :
    file.archive.Later (State.startup config a file).file.archive := by
  have hcommitted := State.startup_committed config a file
  rw [State.file]
  change file.archive.Later
    (if config.persist then (State.startup config a file).db.committed else file).archive
  cases hpersist : config.persist with
  | true =>
    rw [if_pos hpersist] at hcommitted
    exact (hcommitted.later h.idSeq).1
  | false => exact .refl _

/-- The file after a step, restarts included, is a later one. -/
theorem step_later {s : State} (h : Reachable s) (i : Input) :
    s.file.archive.Later (step s i).file.archive := by
  by_cases hrestart : ∃ config, i.event = .restart config
  · obtain ⟨config, hevent⟩ := hrestart
    obtain ⟨event, ambient⟩ := i
    obtain rfl : event = .restart config := hevent
    exact startup_later (State.file_wf h.wf) config (ambient 0)
  · have hsession : ∀ config, i.event ≠ .restart config :=
      fun config he => hrestart ⟨config, he⟩
    obtain ⟨hdisk, hconfig⟩ := State.step_disk hsession
    rw [State.file, State.file, hdisk, hconfig]
    split
    · exact (State.step_commits h.wf.db hsession).later h.wf.db.committed
    · exact .refl _

theorem run_later {s : State} (h : Reachable s) (inputs : List Input) :
    s.file.archive.Later (run step s inputs).file.archive := by
  induction inputs generalizing s with
  | nil => exact .refl _
  | cons i inputs ih => exact (step_later h i).trans (ih (h.step i))

/-- An entry of the file keeps its types and their data as long as it is there. Once it is gone, it
stays gone; and whatever else there is in the file later on was there before or bears a greater
id. -/
theorem stored_for_good {s : State} (hs : Reachable s) {id : ℤ} (hid : s.file.idExists id = true)
    (inputs more : List Input) :
    let t := (run step s inputs).file
    let u := (run step s (inputs ++ more)).file
    (t.idExists id = true → (∀ m, m ∈ t.getMimeTypes id ↔ m ∈ s.file.getMimeTypes id) ∧
        ∀ m, t.getData id m = s.file.getData id m) ∧
      (t.idExists id = false → u.idExists id = false) ∧
      ∀ other, t.idExists other = true → s.file.idExists other = true ∨ id < other := by
  intro t u
  have hlater : s.file.archive.Later t.archive := run_later hs inputs
  have hmore : t.archive.Later u.archive := by
    have hrun := run_later (hs.run inputs) more
    rwa [← run_append] at hrun
  have hold : id < s.file.nextId := id_lt_nextId_of_exists hid
  refine ⟨fun hthere => ?_, fun hgone => ?_, fun other hother => ?_⟩
  · have hsame : t.content id = s.file.content id :=
      hlater.same hold (record_archive hid) (record_archive hthere)
    constructor
    · intro m
      rw [← content_isSome, hsame, content_isSome]
    · intro m
      rw [← content_join, hsame, content_join]
  · rw [← record_archive_eq_none] at hgone ⊢
    exact hmore.gone (hold.trans_le hlater.next) hgone
  · by_cases hfresh : other < s.file.nextId
    · refine Or.inl (Bool.not_eq_false _ ▸ fun hnone => ?_)
      have hnever := hlater.gone hfresh (record_archive_eq_none.mpr hnone)
      rw [record_archive_eq_none, hother] at hnever
      cases hnever
    · exact Or.inr (hold.trans_le (not_lt.mp hfresh))

/-- A text is copied. -/
def textCopied : List Input :=
  .quiet (.addSeat 0 seat0) :: copy (0, .regular) [(textPlain, [65])]

/-- Another text is copied, and the first one deleted. -/
def textReplaced : List Input :=
  copy (0, .regular) [(textPlain, [66])] ++
    [.quiet (.connect 5), .quiet (.message 5 (some (.deleteEntry (some 1))))]

/-- The text is copied again in the next session, which takes the selection from the daemon. -/
def textCopiedAgain : List Input :=
  [.quiet (.restart configInit), .quiet (.addSeat 0 seat0),
    .quiet (.cancelled (0, .regular) true)] ++ copy (0, .regular) [(textPlain, [65])]

/-- It gets another id. -/
theorem textReplaced_for_good :
    let s := run step (boot configInit (.quiet 0)) textCopied
    let t := (run step s textReplaced).file
    let u := (run step s (textReplaced ++ textCopiedAgain)).file
    s.file.idExists 1 = true ∧ t.entries.map Entry.id = [2] ∧ u.entries.map Entry.id = [2, 3] ∧
      (t.idExists 1 = false → u.idExists 1 = false) := by
  intro s t u
  have hid : s.file.idExists 1 = true := by decide +kernel
  have hs : Reachable s := (Reachable.boot configInit (.quiet 0)).run textCopied
  exact ⟨hid, by decide +kernel, by decide +kernel,
    (stored_for_good hs hid textReplaced textCopiedAgain).2.1⟩

end Swayclip
