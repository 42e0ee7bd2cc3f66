import Swayclip.Daemon.Reachability

/-! # Which entries a trim keeps

The daemon trims by age while the history is ordered by use. On the tables of any
reachable state the two agree exactly when no unpinned entry that is too old has been
moved ahead of a younger one.
-/

namespace Swayclip
open Library.Runs

/-- `database_trim` against the order in which the history is shown. -/
theorem databaseTrim_byHistory_iff (db : Database) (h : db.tables.WF) (maxEntries : ℕ) :
    db.tables.TrimsByHistory maxEntries (databaseTrim true maxEntries db).1
        (databaseTrim true maxEntries db).2.tables ↔
      db.tables.OldestShownLast maxEntries :=
  db.tables.trimsByHistory_trim_iff h maxEntries

/-- Two entries, of which the second was copied last. -/
def copiedTwo : State :=
  run step (firstSession configInit)
    (copy (0, .regular) [(textPlain, [65])] ++ copy (0, .regular) [(textPlain, [66])])

theorem copiedTwo_reachable : Reachable copiedTwo := (firstSession_reachable configInit).run _

/-- The first entry is copied once more and moves to the front. -/
def copiedAgain : State := run step copiedTwo (copy (0, .regular) [(textPlain, [65])])

/-- As long as nothing moves, the first entry of the history is kept. -/
theorem copiedTwo_trims_byHistory :
    copiedTwo.db.tables.TrimsByHistory 1 (databaseTrim true 1 copiedTwo.db).1
      (databaseTrim true 1 copiedTwo.db).2.tables :=
  (databaseTrim_byHistory_iff copiedTwo.db copiedTwo_reachable.wf.db.tables 1).mpr
    (by decide +kernel)

/-- The entry at the front of the history is trimmed although there is room for one. -/
theorem copiedAgain_not_trims_byHistory :
    Reachable copiedAgain ∧
      ¬ copiedAgain.db.tables.TrimsByHistory 1 (databaseTrim true 1 copiedAgain.db).1
        (databaseTrim true 1 copiedAgain.db).2.tables :=
  ⟨copiedTwo_reachable.run _,
    fun h => absurd h.1 (by decide +kernel)⟩

end Swayclip
