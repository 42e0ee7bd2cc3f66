import Swayclip.Daemon.Reachability
import Swayclip.Wayland.ActiveToplevel
import Swayclip.Wayland.Offer

/-! # Toplevels and offers

The daemon together with the toplevels it is told about. Whatever happens, the filter that is
applied to the types of an offer is the one that a toplevel is configured with that is matched
and active as of its last `done`.
-/

namespace Swayclip
open Library.Runs

/-- The daemon, the toplevels and how toplevels are configured. -/
structure Desktop where
  daemon : State
  toplevels : Toplevels
  configured : List ConfigToplevel

/-- An event of a toplevel, a restart, which also reads how toplevels are configured, or another
event that the daemon receives. -/
inductive DesktopEvent where
  | toplevel (event : ToplevelEvent)
  | restart (config : Config) (configured : List ConfigToplevel)
  | other (event : Event)
      (session : (∀ config, event ≠ .restart config) ∧ ∀ filter, event ≠ .toplevel filter)

namespace Desktop

def step (d : Desktop) (event : DesktopEvent) (ambient : ℕ → Ambient) : Desktop :=
  match event with
  | .toplevel event =>
    let toplevels := d.toplevels.step d.configured event
    { d with
      daemon := Swayclip.step d.daemon ⟨.toplevel toplevels.activeFilter, ambient⟩
      toplevels := toplevels }
  | .restart config configured =>
    ⟨Swayclip.step d.daemon ⟨.restart config, ambient⟩, .init, configured⟩
  | .other event _ => { d with daemon := Swayclip.step d.daemon ⟨event, ambient⟩ }

/-- The filter that the daemon applies is that of the active toplevel. -/
structure Inv (d : Desktop) : Prop where
  filter : d.daemon.activeToplevel = d.toplevels.activeFilter
  toplevels : d.toplevels.Inv d.configured

end Desktop

/-- Only events of toplevels change the filter during a session. -/
theorem step_activeToplevel {event : Event} (s : State) (ambient : ℕ → Ambient)
    (hrestart : ∀ config, event ≠ .restart config)
    (htoplevel : ∀ filter, event ≠ .toplevel filter) :
    (step s ⟨event, ambient⟩).activeToplevel = s.activeToplevel := by
  cases event with
  | restart config => exact absurd rfl (hrestart config)
  | toplevel filter => exact absurd rfl (htoplevel filter)
  | addSeat globalName name =>
    simp only [step, State.handle, State.addSeat]
    split <;> rfl
  | dataOffer seat | offer seat mimeType | cancelled name current =>
    rcases State.onSeat_cases _ _ s with he | ⟨seat, -, -, he⟩ <;> rw [step, State.handle, he]
    rfl
  | nullTimer name ok =>
    rcases State.onSeat_cases name.1 (State.nullTimer (ambient 0) name.2 ok) s with
      he | ⟨seat, -, -, he⟩ <;> rw [step, State.handle, he]
    unfold State.nullTimer
    split <;> rfl
  | selection name offer timerOk =>
    rcases State.onSeat_cases name.1 (State.selection (ambient 0) name.2 offer timerOk) s with
      he | ⟨seat, -, -, he⟩ <;> rw [step, State.handle, he]
    rcases State.selection_cases (ambient 0) name.2 offer timerOk seat s with
      hs | ⟨written, -, -, -, -, hs⟩ <;> rw [hs]
    · rfl
    · exact (State.wsignalSelection_session (ambient 0) (seat.globalName, name.2) written
        seat.mimeTypes seat.transient (s.putSeat _)).activeToplevel
  | connect fd =>
    simp only [step, State.handle, State.connect]
    split <;> rfl
  | removeSeat globalName | disconnect fd => rfl
  | message fd msg =>
    simp only [step, State.handle]
    split
    · rfl
    · exact (State.messageCallback_session ambient _ msg s).activeToplevel

namespace Desktop

theorem step_inv {d : Desktop} (h : d.Inv) (event : DesktopEvent) (ambient : ℕ → Ambient) :
    (d.step event ambient).Inv := by
  cases event with
  | toplevel event => exact ⟨rfl, Toplevels.step_inv h.toplevels event⟩
  | restart config configured => exact ⟨rfl, Toplevels.init_inv configured⟩
  | other event session =>
    exact ⟨(step_activeToplevel d.daemon ambient session.1 session.2).trans h.filter, h.toplevels⟩

/-- A started daemon, which knows no toplevels yet. -/
def startup (config : Config) (configured : List ConfigToplevel) (a : Ambient) (disk : Tables) :
    Desktop :=
  ⟨State.startup config a disk, .init, configured⟩

theorem run_inv (config : Config) (configured : List ConfigToplevel) (a : Ambient) (disk : Tables)
    (inputs : List (DesktopEvent × (ℕ → Ambient))) :
    (run (fun d i => d.step i.1 i.2) (startup config configured a disk) inputs).Inv :=
  run_invariant (C := fun _ _ => True) (I := Inv) (fun _ i h _ => step_inv h i.1 i.2)
    ⟨rfl, Toplevels.init_inv configured⟩ (Meets.of_mem fun _ _ _ => trivial)

/-- The filter applied to an offer is that of a toplevel that is there, is matched and was
activated. -/
theorem filter_of_active (config : Config) (configured : List ConfigToplevel) (a : Ambient)
    (disk : Tables) (inputs : List (DesktopEvent × (ℕ → Ambient))) :
    let d := run (fun d i => step d i.1 i.2) (startup config configured a disk) inputs
    ∀ filter, d.daemon.activeToplevel = some filter →
      ∃ tp ∈ d.toplevels.toplevels, tp.wasActive d.configured = true ∧
        tp.config.map ConfigToplevel.toMimeFilter = some filter := by
  intro d filter hfilter
  have h : d.Inv := run_inv config configured a disk inputs
  rw [h.filter, Toplevels.activeFilter] at hfilter
  obtain ⟨tp, hfind, hconfig⟩ := Option.bind_eq_some_iff.mp hfilter
  obtain ⟨handle, hpointer, hfound⟩ := Option.bind_eq_some_iff.mp hfind
  obtain ⟨other, hmem, hhandle, hwas⟩ := h.toplevels.pointer handle hpointer
  have hother : d.toplevels.find other.handle = some other :=
    Toplevels.find_of_mem h.toplevels.distinct hmem
  rw [hhandle, hfound] at hother
  obtain rfl := Option.some.inj hother
  exact ⟨tp, hmem, hwas, hconfig⟩

/-- A type blocks the offer that it is announced for only if the global lists block it or those of
a toplevel that is there, is matched and was activated. -/
theorem offer_blocked_by_active (config : Config) (configured : List ConfigToplevel) (a : Ambient)
    (disk : Tables) (inputs : List (DesktopEvent × (ℕ → Ambient))) {n : ℕ} {m : CString}
    (ambient : ℕ → Ambient) :
    let d := run (fun d i => step d i.1 i.2) (startup config configured a disk) inputs
    ∀ seat, d.daemon.findSeat n = some seat → seat.blocked = false →
      ((Swayclip.step d.daemon ⟨.offer n m, ambient⟩).findSeat n).any (fun seat => seat.blocked) →
      d.daemon.config.blocks m = true ∨ ∃ tp ∈ d.toplevels.toplevels,
        tp.wasActive d.configured = true ∧ tp.config.any (fun c => c.blocks m) = true := by
  intro d seat hseat hfree hblocked
  have hname : seat.globalName = n := State.findSeat_globalName hseat
  have hput := fun collected =>
    @State.findSeat_putSeat d.daemon n seat { seat with toCollected := collected } hseat hname
  rw [Swayclip.step, State.handle, State.onSeat, hseat] at hblocked
  dsimp only at hblocked
  split at hblocked
  · rw [State.offer, hput, Option.any_some,
      dataOfferEventOffer_blocked _ _ m hfree, blockSeen, Bool.or_eq_true, Bool.and_eq_true,
      Option.any_eq_true] at hblocked
    refine hblocked.imp id ?_
    rintro ⟨-, filter, hfilter, hblocks⟩
    obtain ⟨tp, hmem, hactive, hconfig⟩ :=
      filter_of_active config configured a disk inputs filter hfilter
    obtain ⟨c, hc, rfl⟩ := Option.map_eq_some_iff.mp hconfig
    exact ⟨tp, hmem, hactive, by rw [hc, Option.any_some, hblocks]⟩
  · rw [hseat, Option.any_some, hfree] at hblocked
    cases hblocked

end Desktop

end Swayclip
