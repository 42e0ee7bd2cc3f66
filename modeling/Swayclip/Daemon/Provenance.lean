import Swayclip.Daemon.Transitions
import Swayclip.Database.Provenance

/-! # The daemon and the origins of its entries

Only a selection event creates an entry. The daemon is run together with the origins of the
entries in view and of those in the file, so that what is true of entries and their origins
can be carried along a run, restarts included.
-/

namespace Swayclip
open Library.Runs Tables

theorem mapAttributes_change (id : ℤ) (f : Attributes → Attributes) (t : Tables) :
    Change t (mapAttributes id f t) := by
  refine .rewrite ?_ rfl rfl rfl
  rw [mapAttributes, List.map_map]
  exact List.map_congr_left fun e _ => by
    rw [Function.comp_apply]
    split <;> rfl

namespace State

/-- What is received in a step: the types of the offer with their data. -/
def received (s : State) (i : Input) : Option Content :=
  match i.event with
  | .selection name (some written) _ =>
    (s.findSeat name.1).bind (fun seat =>
      if reaches name.2 seat then receiveAll s.config written 0 seat.mimeTypes else none)
  | _ => none

/-- All data that is received in a step. -/
def receivedData (s : State) (i : Input) : List Bytes :=
  (s.received i).toList.flatMap (fun content => content.map Prod.snd)

theorem received_delivered {s : State} {i : Input} {name : SelectionName} {seat : Seat}
    {written : ℕ → Option Bytes} {timerOk : Bool}
    (hevent : i.event = .selection name (some written) timerOk) (h : Delivers s name seat) :
    s.received i = receiveAll s.config written 0 seat.mimeTypes := by
  obtain ⟨hseat, hreaches⟩ := delivers_iff.mp h
  rw [received, hevent]
  simp [hseat, hreaches]

/-! ## Handlers create at most one entry -/

theorem update_changes (a : Ambient) (id : ℤ) (pinned : Option Bool) (s : State) :
    Changes s.db.tables (s.update a id pinned).2.db.tables := by
  simp only [update, databaseUpdateEntry]
  cases a.sql .updateEntry 0 with
  | true => exact .single (change_updateEntry ..)
  | false => exact .refl

theorem effect_changes {a : Ambient} {x y : State} (h : Effect a x y) :
    Changes x.db.tables y.db.tables := by
  cases h with
  | client | emit | reset => exact .refl
  | set ignore id => exact .single (set_sameRows ..).change
  | update id pinned => exact update_changes a id pinned x
  | delete id =>
    cases hok : a.sql .delEntry 0 with
    | true => exact .single (.delete [id])
    | false => exact .refl
  | clear =>
    cases hok : a.sql .clear 0 with
    | true => exact .single (.delete _)
    | false => exact .refl

theorem messageCallback_changes (ambient : ℕ → Ambient) (client : Client) (msg : Option Request)
    (s : State) : Changes s.db.tables (s.messageCallback ambient client msg).db.tables :=
  messageCallback_preserve (P := fun x => Changes s.db.tables x.db.tables) ambient
    (fun _ _ _ he hx => hx.trans (effect_changes he)) client msg .refl

theorem trim_changes (a : Ambient) (s : State) : Changes s.db.tables (s.trim a).db.tables := by
  simp only [trim, databaseTrim]
  cases a.sql .trim 0 with
  | true => exact changes_trim ..
  | false => exact .refl

/-- A step other than a restart does to the tables what the selection callback does to them. -/
theorem step_evolves {Q : Content → Prop} {s : State} {i : Input}
    (hselection : ∀ name seat written timerOk, i.event = .selection name (some written) timerOk →
      Delivers s name seat →
      let s' := (s.withOffer name seat).wsignalSelection (i.ambient 0) name written seat.mimeTypes
        seat.transient
      Evolves Q (i.ambient 0).now (receiveAll s.config written 0 seat.mimeTypes) s.db.tables
          s'.db.tables ∧ s'.db.saved = none)
    (hsession : ∀ config, i.event ≠ .restart config) (hsaved : s.db.saved = none) :
    Evolves Q (i.ambient 0).now (s.received i) s.db.tables (step s i).db.tables ∧
      (step s i).db.saved = none ∧ (step s i).disk = s.disk ∧ (step s i).config = s.config := by
  have htransition := step_transition s i
  generalize step s i = s' at htransition ⊢
  cases htransition with
  | quiet hevent h =>
    rw [h.db]
    exact ⟨.changed .refl, hsaved, h.disk, h.config⟩
  | restarted hevent => exact absurd hevent (hsession _)
  | @delivered name seat written timerOk hevent h =>
    rw [received_delivered hevent h]
    obtain ⟨hevolves, hnone⟩ := hselection name seat written timerOk hevent h
    have hsame := wsignalSelection_session (i.ambient 0) name written seat.mimeTypes seat.transient
      (s.withOffer name seat)
    exact ⟨hevolves, hnone, hsame.disk, hsame.config⟩
  | @served _ msg client =>
    have hsame := messageCallback_session i.ambient client msg s
    exact ⟨.changed (messageCallback_changes ..), (messageCallback_saved ..).trans hsaved,
      hsame.disk, hsame.config⟩

end State

/-! ## The origins along a run -/

/-- The origins of the entries in view, and of those in the file. -/
structure Provenance where
  live : Origins
  file : Origins

/-- A step of the daemon with what it does to the origins. -/
def traceStep (x : State × Provenance) (i : Input) : State × Provenance :=
  (step x.1 i, match i.event with
    | .restart config =>
      let file := if x.1.config.persist then x.2.live else x.2.file
      ⟨if config.persist then file else [], file⟩
    | _ => { x.2 with
        live := x.2.live ++ created (x.1.received i) x.1.db.tables (step x.1 i).db.tables })

/-- The daemon on its first start with the origins of no entry. -/
def traceBoot (config : Config) (a : Ambient) : State × Provenance := (boot config a, ⟨[], []⟩)

theorem traceStep_fst (x : State × Provenance) (i : Input) : (traceStep x i).1 = step x.1 i := rfl

theorem traceStep_session {x : State × Provenance} {i : Input}
    (hsession : ∀ config, i.event ≠ .restart config) : (traceStep x i).2 = { x.2 with
      live := x.2.live ++ created (x.1.received i) x.1.db.tables (step x.1 i).db.tables } := by
  unfold traceStep
  split
  · rename_i config hevent
    exact absurd hevent (hsession config)
  · rfl

theorem startup_changes (config : Config) (a : Ambient) (disk : Tables) :
    Changes (if config.persist then disk else Tables.empty)
      (State.startup config a disk).db.tables := by
  simp only [State.startup, databaseInit, databaseTrim]
  cases a.sql .trim 0 with
  | true => exact changes_trim ..
  | false => exact .refl

/-- Between two steps, `I` holds of the entries in view and of those in the file. -/
structure Keeps (I : Origins → Tables → Prop) (x : State × Provenance) : Prop where
  reachable : Reachable x.1
  saved : x.1.db.saved = none
  live : I x.2.live x.1.db.tables
  file : I x.2.file x.1.disk

section Keeps
variable {I : Origins → Tables → Prop} (hempty : I [] Tables.empty)
  (hchanges : ∀ {origins t t'}, I origins t → Changes t t' → I origins t')
include hempty hchanges

theorem startup_keeps {origins : Origins} {disk : Tables} (h : I origins disk) (config : Config)
    (a : Ambient) :
    I (if config.persist then origins else []) (State.startup config a disk).db.tables := by
  refine hchanges ?_ (startup_changes config a disk)
  split
  · exact h
  · exact hempty

theorem boot_keeps (config : Config) (a : Ambient) : Keeps I (traceBoot config a) := by
  have hlive := startup_keeps hempty hchanges hempty config a
  rw [ite_self] at hlive
  exact ⟨.boot config a, State.startup_saved .., hlive, hempty⟩

/-- A restart finds what the last session has left in the file, or starts afresh. -/
theorem step_keeps {x : State × Provenance} {i : Input} (h : Keeps I x)
    (hsession : (∀ config, i.event ≠ .restart config) →
      I (x.2.live ++ created (x.1.received i) x.1.db.tables (step x.1 i).db.tables)
          (step x.1 i).db.tables ∧
        (step x.1 i).db.saved = none ∧ (step x.1 i).disk = x.1.disk) : Keeps I (traceStep x i) := by
  by_cases hrestart : ∀ config, i.event ≠ .restart config
  · obtain ⟨hlive, hsaved, hdisk⟩ := hsession hrestart
    refine ⟨h.reachable.step i, hsaved, ?_, ?_⟩ <;> rw [traceStep_session hrestart]
    · exact hlive
    · rw [traceStep_fst, hdisk]
      exact h.file
  · simp only [ne_eq, not_forall, not_not] at hrestart
    obtain ⟨config, hevent⟩ := hrestart
    obtain ⟨event, ambient⟩ := i
    obtain rfl : event = .restart config := hevent
    have hfile : I (if x.1.config.persist then x.2.live else x.2.file) x.1.file := by
      rw [State.file, Database.committed, h.saved, Option.getD_none]
      split
      · exact h.live
      · exact h.file
    exact ⟨h.reachable.step ⟨.restart config, ambient⟩, State.startup_saved ..,
      startup_keeps hempty hchanges hfile config (ambient 0), hfile⟩

end Keeps

end Swayclip
