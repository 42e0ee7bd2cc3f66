import Swayclip.Daemon.Provenance
import Swayclip.Daemon.Storing

/-! # What the file goes through

A transaction that cannot be ended stays open, and nothing that is done from then on is
committed. So whatever fails, what a step does to the committed tables is a few changes of
rows that exist and, if the event is stored, one entry with its content.
-/

namespace Swayclip
open Library.Runs Tables

/-- What happens to the committed tables: they get the entry that is stored, if any, and rows that
exist are changed. -/
inductive Commits (now : ℤ) (t : Tables) : Option Content → Tables → Prop
  | nothing {t' : Tables} (h : Changes t t') : Commits now t none t'
  | entry {content : Content} {t₁ t' : Tables} (hadd : t.addEntry now content = some t₁)
      (h : Changes t₁ t') : Commits now t (some content) t'

theorem Commits.trans {now : ℤ} {stored : Option Content} {t t' t'' : Tables}
    (h : Commits now t stored t') (h' : Changes t' t'') : Commits now t stored t'' := by
  cases h with
  | nothing h => exact .nothing (h.trans h')
  | entry hadd h => exact .entry hadd (h.trans h')

/-- What statements change, they change in the committed tables or not at all. -/
theorem Database.committed_changes {x y : Database} (hsaved : y.saved = x.saved)
    (h : Changes x.tables y.tables) : Changes x.committed y.committed := by
  rw [committed, committed, hsaved]
  cases x.saved with
  | none => exact h
  | some t => exact .refl

namespace State

/-! ## Outside of transactions -/

theorem set_committed (sql : Sql) (ignore : Option SelectionName) (id : ℤ) (s : State) :
    Changes s.db.committed (s.set sql ignore id).db.committed :=
  Database.committed_changes (set_saved ..) (.single (set_sameRows ..).change)

theorem messageCallback_committed (ambient : ℕ → Ambient) (client : Client) (msg : Option Request)
    (s : State) : Changes s.db.committed (s.messageCallback ambient client msg).db.committed :=
  Database.committed_changes (messageCallback_saved ..) (messageCallback_changes ..)

theorem trim_committed (a : Ambient) (s : State) :
    Changes s.db.committed (s.trim a).db.committed :=
  Database.committed_changes (trim_saved a s) (trim_changes a s)

theorem saveAttributes_committed (sql : Sql) (o : Outcome) (s : State) :
    Changes s.db.committed (s.saveAttributes sql o).db.committed := by
  rw [saveAttributes_eq]
  exact Database.committed_changes rfl (.single (mapAttributes_change ..))

theorem update_committed (a : Ambient) (id : ℤ) (pinned : Option Bool) (s : State) :
    Changes s.db.committed (s.update a id pinned).2.db.committed :=
  Database.committed_changes (effect_saved (.update id pinned s)) (update_changes a id pinned s)

theorem receiveAll_ne_nil {config : Config} {written : ℕ → Option Bytes}
    {mimeTypes : List CString} (hmime : mimeTypes ≠ []) {content : Content}
    (h : receiveAll config written 0 mimeTypes = some content) : content ≠ [] := by
  cases mimeTypes with
  | nil => exact absurd rfl hmime
  | cons m mimeTypes =>
    rw [receiveAll] at h
    split at h
    · cases h
    · obtain ⟨rest, -, rfl⟩ := Option.map_eq_some_iff.mp h
      exact List.cons_ne_nil _ _

/-! ## The transaction of an event -/

section Event
variable {a : Ambient} {s : State} {t : Tables} {written : ℕ → Option Bytes}
  {mimeTypes : List CString}

/-- A commit publishes the new entry; otherwise nothing has happened. -/
theorem ended_commits {received : Option Content} {o : Outcome} {db : Database}
    (hsaved : db.saved = some t) (h : Ended s.config a.now received t o db.tables) :
    Commits a.now t (if o.ret && a.sql .commitTransaction 0 then received else none)
      (if o.ret then (databaseDoTransaction (a.sql .commitTransaction 0) .commit db).2
        else (databaseDoTransaction (a.sql .rollbackTransaction 0) .rollback db).2).committed := by
  obtain ⟨tables, saved⟩ := db
  obtain rfl : saved = some t := hsaved
  have hrollback : (databaseDoTransaction (a.sql .rollbackTransaction 0) .rollback
      ⟨tables, some t⟩).2.committed = t := by
    cases a.sql .rollbackTransaction 0 <;> rfl
  cases h with
  | added hreceived hadd hret =>
    rw [if_pos hret, hret, hreceived, Bool.true_and]
    cases a.sql .commitTransaction 0 with
    | false => exact .nothing .refl
    | true => exact .entry hadd .refl
  | moved _ _ hret | ignored _ _ hret | failed hret =>
    simp only [hret, Bool.false_and, Bool.false_eq_true, if_false, hrollback]
    exact .nothing .refl

theorem finishTransaction_commits {received : Option Content} {o : Outcome} {db : Database}
    (hsaved : db.saved = some t) (h : Ended s.config a.now received t o db.tables) :
    Commits a.now t (if o.ret && a.sql .commitTransaction 0 then received else none)
      (s.finishTransaction a o db).2.db.committed := by
  have hended := ended_commits (a := a) hsaved h
  unfold finishTransaction
  generalize (if o.ret && a.sql .commitTransaction 0 then received else none) = stored at hended ⊢
  generalize (if o.ret then (databaseDoTransaction (a.sql .commitTransaction 0) .commit db).2
    else (databaseDoTransaction (a.sql .rollbackTransaction 0) .rollback db).2) = db' at hended ⊢
  dsimp only
  have hsort : Changes db'.committed
      (databaseUpdateSortIndex (a.sql .updateSortIndex 0) o.id db').2.committed := by
    refine Database.committed_changes (Database.exec_saved ..) ?_
    cases a.sql .updateSortIndex 0 with
    | true => exact .single (change_updateSortIndex ..)
    | false => exact .refl
  split
  · split <;> rename_i db'' he <;> rw [he] at hsort
    · exact (hended.trans hsort).trans (update_committed a o.id none { s with db := db'' })
    · exact hended.trans hsort
  · exact hended

theorem storeSelection_commits (hdb : s.db = ⟨t, some t⟩) (ht : t.WF) (a : Ambient)
    (name : SelectionName) (written : ℕ → Option Bytes) (mimeTypes : List CString) :
    Commits a.now t ((receiveAll s.config written 0 mimeTypes).filter (fun content =>
        a.completes s.config.dedup content t && a.sql .commitTransaction 0))
      (s.storeSelection a name written mimeTypes).db.committed := by
  have hret := selectionTransaction_ret (Database.wf_begun ht hdb) s.config a written mimeTypes
  cases he : selectionTransaction s.config a written mimeTypes s.db with
  | mk o db =>
    obtain ⟨hsaved, hend⟩ := selectionTransaction_begun ht hdb he
    rw [he, hdb] at hret
    have hstored : (if o.ret && a.sql .commitTransaction 0 then
        receiveAll s.config written 0 mimeTypes else none) =
        (receiveAll s.config written 0 mimeTypes).filter (fun content =>
          a.completes s.config.dedup content t && a.sql .commitTransaction 0) := by
      rw [hret]
      cases receiveAll s.config written 0 mimeTypes with
      | none => exact ite_self none
      | some content => rw [Option.any_some, Option.filter_some]
    have hfinish := finishTransaction_commits (s := s) (a := a) hsaved hend
    rw [hstored] at hfinish
    generalize (receiveAll s.config written 0 mimeTypes).filter _ = stored at hfinish ⊢
    have hset : ∀ (x : State) (ipc : List Client), Commits a.now t stored x.db.committed →
        Commits a.now t stored
          ({ x with ipc := ipc }.set a.sql (some name) o.id).db.committed := fun x ipc h =>
      h.trans (set_committed a.sql (some name) o.id { x with ipc := ipc })
    unfold storeSelection
    rw [he]
    dsimp only
    split <;> rename_i s' hf <;> rw [hf] at hfinish
    · split
      · exact hset s' _ hfinish
      · exact hset _ _ (hfinish.trans (saveAttributes_committed a.sql o s'))
    · split <;> exact hfinish

/-- What the callback stores. -/
def storedBy (a : Ambient) (written : ℕ → Option Bytes) (mimeTypes : List CString)
    (transient : Bool) (s : State) : Option Content :=
  if mimeTypes ≠ [] ∧ transient = false ∧ s.db.saved = none then
    (receiveAll s.config written 0 mimeTypes).filter
      (fun content => a.stores s.config.dedup content s.db.tables)
  else none

theorem wsignalSelection_commits (a : Ambient) (hwf : s.db.WF) (name : SelectionName)
    (written : ℕ → Option Bytes) (mimeTypes : List CString) (transient : Bool) :
    Commits a.now s.db.committed (s.storedBy a written mimeTypes transient)
      (s.wsignalSelection a name written mimeTypes transient).db.committed := by
  unfold wsignalSelection storedBy
  by_cases hmime : mimeTypes = []
  · rw [if_neg (fun h => h.1 hmime), if_pos (by rw [hmime]; rfl)]
    exact .nothing .refl
  · rw [if_neg (fun h => hmime (List.length_eq_zero_iff.mp h))]
    dsimp only
    cases transient with
    | true =>
      rw [if_neg (fun h => Bool.noConfusion h.2.1), if_pos rfl, storeTransient]
      dsimp only
      split
      · exact .nothing .refl
      · exact .nothing (set_committed a.sql (some name) 0
          { s.clearTransient with id := -1, transient := _ })
    | false =>
      rw [if_neg Bool.false_ne_true]
      -- the statement is carried out unless a transaction has been left open
      have hbegin : databaseDoTransaction (a.sql .beginImmediate 0) .immediate
          s.clearTransient.db = if a.sql .beginImmediate 0 = true ∧ s.db.saved = none then
            (true, ⟨s.db.tables, some s.db.tables⟩) else (false, s.db) := by
        change databaseDoTransaction _ _ s.db = _
        obtain ⟨tables, saved⟩ := s.db
        cases a.sql .beginImmediate 0 <;> cases saved <;> rfl
      rw [hbegin]
      by_cases hopen : a.sql .beginImmediate 0 = true ∧ s.db.saved = none
      · have hcommitted : s.db.committed = s.db.tables := by
          rw [Database.committed, hopen.2, Option.getD_none]
        have hstore := storeSelection_commits
          (s := { s.clearTransient with db := ⟨s.db.tables, some s.db.tables⟩ }) rfl hwf.tables a
          name written mimeTypes
        have hstores : (fun content => a.stores s.config.dedup content s.db.tables) =
            fun content => a.completes s.config.dedup content s.db.tables &&
              a.sql .commitTransaction 0 := by
          funext content
          rw [Ambient.stores, hopen.1, Bool.true_and]
        rw [if_pos hopen, if_pos ⟨hmime, rfl, hopen.2⟩, hcommitted, hstores]
        exact hstore.trans (trim_committed a _)
      · have hnothing : (if mimeTypes ≠ [] ∧ false = false ∧ s.db.saved = none then
            (receiveAll s.config written 0 mimeTypes).filter
              (fun content => a.stores s.config.dedup content s.db.tables) else none) = none := by
          split
          · rename_i h
            have hnot : a.sql .beginImmediate 0 = false :=
              Bool.eq_false_iff.mpr fun hok => hopen ⟨hok, h.2.2⟩
            simp [Ambient.stores, hnot]
          · rfl
        rw [if_neg hopen, hnothing]
        exact .nothing .refl

end Event

/-! ## Steps and restarts -/

/-- The content that a step stores as a new entry. -/
def stored (s : State) (i : Input) : Option Content :=
  match i.event with
  | .selection name (some written) _ =>
    (s.findSeat name.1).bind (fun seat => if reaches name.2 seat then
      s.storedBy (i.ambient 0) written seat.mimeTypes seat.transient else none)
  | _ => none

theorem stored_delivered {s : State} {i : Input} {name : SelectionName} {seat : Seat}
    {written : ℕ → Option Bytes} {timerOk : Bool}
    (hevent : i.event = .selection name (some written) timerOk) (h : Delivers s name seat) :
    s.stored i = s.storedBy (i.ambient 0) written seat.mimeTypes seat.transient := by
  obtain ⟨hseat, hreaches⟩ := delivers_iff.mp h
  rw [stored, hevent]
  simp [hseat, hreaches]

/-- Without a delivery, nothing is stored. -/
theorem stored_of_notDelivered {s : State} {i : Input} (h : NotDelivered s i.event) :
    s.stored i = none := by
  unfold stored
  split
  · rename_i name written timerOk hevent
    rw [Option.bind_eq_none_iff]
    intro seat hseat
    rw [if_neg]
    exact fun hreaches => h name written timerOk seat hevent (delivers_iff.mpr ⟨hseat, hreaches⟩)
  · rfl

theorem stored_ne_nil {s : State} {i : Input} {content : Content}
    (h : s.stored i = some content) : content ≠ [] := by
  unfold stored at h
  split at h
  · obtain ⟨seat, -, hstored⟩ := Option.bind_eq_some_iff.mp h
    split at hstored
    · unfold storedBy at hstored
      split at hstored
      · rename_i hmime
        exact receiveAll_ne_nil hmime.1 (Option.filter_eq_some_iff.mp hstored).1
      · cases hstored
    · cases hstored
  · cases h

theorem step_commits {s : State} (hwf : s.db.WF) {i : Input}
    (hsession : ∀ config, i.event ≠ .restart config) :
    Commits (i.ambient 0).now s.db.committed (s.stored i) (step s i).db.committed := by
  have htransition := step_transition s i
  generalize step s i = s' at htransition ⊢
  cases htransition with
  | quiet hevent h =>
    rw [h.db, stored_of_notDelivered hevent]
    exact .nothing .refl
  | restarted hevent => exact absurd hevent (hsession _)
  | @delivered name seat written timerOk hevent h =>
    rw [stored_delivered hevent h]
    exact wsignalSelection_commits (s := s.withOffer name seat) (i.ambient 0) hwf name written
      seat.mimeTypes seat.transient
  | @served fd msg _ hevent =>
    rw [stored_of_notDelivered (notDelivered (by rw [hevent]; rfl))]
    exact .nothing (messageCallback_committed ..)

theorem step_disk {s : State} {i : Input} (hsession : ∀ config, i.event ≠ .restart config) :
    (step s i).disk = s.disk ∧ (step s i).config = s.config := by
  rcases step_session s i with hsame | ⟨config, hevent, -⟩
  · exact hsame
  · exact absurd hevent (hsession config)

theorem startup_committed (config : Config) (a : Ambient) (disk : Tables) :
    Changes (if config.persist then disk else Tables.empty)
      (startup config a disk).db.committed := by
  rw [Database.committed, startup_saved, Option.getD_none]
  exact startup_changes config a disk

/-- What is true of the empty tables, survives every change of rows that exist and is true of the
tables with a new entry, is true of what is committed and of what is in the file. -/
theorem committed_of_reachable {I : Tables → Prop} (hempty : I Tables.empty)
    (hchanges : ∀ t t', I t → Changes t t' → I t')
    (hadded : ∀ t t' now content, I t → t.WF → content ≠ [] → t.addEntry now content = some t' →
      I t') {s : State} (h : Reachable s) : I s.db.committed ∧ I s.file := by
  have hboth : I s.db.committed ∧ I s.disk := by
    refine (Reachable.induction (P := fun s => Reachable s ∧ I s.db.committed ∧ I s.disk) ?_ ?_ h).2
    · intro config a
      refine ⟨.boot config a, hchanges _ _ ?_ (startup_committed config a Tables.empty), hempty⟩
      rw [ite_self]
      exact hempty
    · rintro s i ⟨hreach, hcommitted, hdisk⟩
      refine ⟨hreach.step i, ?_⟩
      by_cases hrestart : ∃ config, i.event = .restart config
      · obtain ⟨config, hevent⟩ := hrestart
        obtain ⟨event, ambient⟩ := i
        obtain rfl : event = .restart config := hevent
        have hfile : I s.file := file_of hcommitted hdisk
        refine ⟨hchanges _ _ ?_ (startup_committed config (ambient 0) s.file), hfile⟩
        split
        · exact hfile
        · exact hempty
      · have hsession : ∀ config, i.event ≠ .restart config :=
          fun config he => hrestart ⟨config, he⟩
        refine ⟨?_, ?_⟩
        · have hcommits := step_commits hreach.wf.db hsession
          generalize hstored : s.stored i = stored at hcommits
          cases hcommits with
          | nothing hc => exact hchanges _ _ hcommitted hc
          | entry hadd hc =>
            exact hchanges _ _ (hadded _ _ _ _ hcommitted hreach.wf.db.committed
              (stored_ne_nil hstored) hadd) hc
        · rw [(step_disk hsession).1]
          exact hdisk
  exact ⟨hboth.1, file_of hboth.1 hboth.2⟩

end State

end Swayclip
