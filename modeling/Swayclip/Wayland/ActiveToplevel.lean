import Mathlib.Data.List.Nodup
import Mathlib.Data.Set.Insert
import Swayclip.Library.Runs
import Swayclip.Wayland.Toplevel

/-! # The active toplevel

The pointer to the active toplevel is moved by the events of one toplevel at a time: it always
names one that is matched and active, but it is lost with that one even when another could
take its place.
-/

namespace Swayclip
open Library.Runs

/-! ## What the last `done` events say -/

namespace Toplevel

/-- Activated as of its last `done`. -/
def wasActivated (tp : Toplevel) : Bool := tp.done.any (fun d => d.2.2)

/-- Activated, and matched by a configured toplevel, as of its last `done`. -/
def wasActive (configured : List ConfigToplevel) (tp : Toplevel) : Bool :=
  tp.done.any (fun d => d.2.2 && configured.any (ConfigToplevel.matchToplevel d.1 d.2.1))

/-- The answer to the query is that of the last `done`, and is still right while it counts as
acknowledged. -/
structure UpToDate (configured : List ConfigToplevel) (tp : Toplevel) : Prop where
  config : tp.config = tp.done.bind (fun d => queryConfig configured d.1 d.2.1)
  acked : tp.ack = true → ∃ activated, tp.done = some (tp.title, tp.appId, activated)

theorem UpToDate.wasActive_iff {configured : List ConfigToplevel} {tp : Toplevel}
    (h : tp.UpToDate configured) :
    tp.wasActive configured = true ↔ tp.config.isSome = true ∧ tp.wasActivated = true := by
  rw [h.config, wasActive, wasActivated]
  cases tp.done with
  | none => simp
  | some d =>
    simp only [Option.any_some, Option.bind_some, queryConfig, List.find?_isSome, Bool.and_eq_true,
      List.any_eq_true]
    exact and_comm

/-- What is remembered of a toplevel when a change to it is done. -/
def acknowledged (configured : List ConfigToplevel) (tp : Toplevel) : Toplevel :=
  { tp with
    done := some (tp.title, tp.appId, tp.activated)
    config := queryConfig configured tp.title tp.appId
    ack := true }

theorem acknowledged_upToDate (configured : List ConfigToplevel) (tp : Toplevel) :
    (tp.acknowledged configured).UpToDate configured :=
  ⟨rfl, fun _ => ⟨tp.activated, rfl⟩⟩

/-- Whether the toplevel is active once the change is done. -/
def isActive (configured : List ConfigToplevel) (tp : Toplevel) : Bool :=
  tp.activated && configured.any (ConfigToplevel.matchToplevel tp.title tp.appId)

theorem acknowledged_wasActive (configured : List ConfigToplevel) (tp : Toplevel) :
    (tp.acknowledged configured).wasActive configured = tp.isActive configured := rfl

end Toplevel

/-- Where a configured toplevel matches, the pointer moves to the toplevel that is done, leaves it
or stays. -/
theorem settleActive_of_matched {configured : List ConfigToplevel} {tp : Toplevel}
    (hmatched : (queryConfig configured tp.title tp.appId).isSome = true) (active : Option ℕ) :
    settleActive (tp.acknowledged configured) active =
      if tp.isActive configured then some tp.handle
      else if active = some tp.handle then none else active := by
  have hany : configured.any (ConfigToplevel.matchToplevel tp.title tp.appId) = true := by
    rwa [queryConfig, List.find?_isSome, ← List.any_eq_true] at hmatched
  have hactive : tp.isActive configured = tp.activated := by
    rw [Toplevel.isActive, hany, Bool.and_true]
  rw [hactive]
  change (if tp.activated ∧ active ≠ some tp.handle then some tp.handle
    else if ¬ tp.activated ∧ active = some tp.handle then none else active) = _
  by_cases hact : tp.activated = true
  · by_cases hhere : active = some tp.handle <;> simp [hact, hhere]
  · simp [hact]

theorem isActive_of_unmatched {configured : List ConfigToplevel} {tp : Toplevel}
    (hmatched : (queryConfig configured tp.title tp.appId).isSome = false) :
    tp.isActive configured = false := by
  have hany : configured.any (ConfigToplevel.matchToplevel tp.title tp.appId) = false := by
    rw [Bool.eq_false_iff, Ne, List.any_eq_true, ← List.find?_isSome]
    exact ne_of_eq_of_ne hmatched Bool.false_ne_true
  rw [Toplevel.isActive, hany, Bool.and_false]

/-- With and without the query, `done` does the same to a toplevel that is up to date. -/
theorem ftpEventDone_eq {configured : List ConfigToplevel} {tp : Toplevel} {active : Option ℕ}
    (h : tp.UpToDate configured) (hactive : active = some tp.handle → tp.config.isSome = true) :
    ftpEventDone configured tp active = (tp.acknowledged configured,
      if tp.isActive configured then some tp.handle
      else if active = some tp.handle then none else active) := by
  have hquery : ∀ q : Option ConfigToplevel, q.isNone = !q.isSome := fun q => by cases q <;> rfl
  by_cases hack : tp.ack = true
  · -- the answer is remembered
    obtain ⟨activated, hdone⟩ := h.acked hack
    have hconfig : tp.config = queryConfig configured tp.title tp.appId := by
      rw [h.config, hdone, Option.bind_some]
    have hsame : { tp with done := some (tp.title, tp.appId, tp.activated) } =
        tp.acknowledged configured := by
      rw [Toplevel.acknowledged, ← hconfig, ← hack]
    rw [ftpEventDone, hsame]
    change (if ¬ (true = true) then _
      else if (queryConfig configured tp.title tp.appId).isNone = true then _ else _) = _
    rw [if_neg (not_not.mpr rfl), hquery]
    cases hmatched : (queryConfig configured tp.title tp.appId).isSome with
    | false =>
      have hnot : active ≠ some tp.handle := by
        intro hhere
        have hsome := hactive hhere
        rw [hconfig, hmatched] at hsome
        cases hsome
      rw [isActive_of_unmatched hmatched, if_neg Bool.false_ne_true, if_neg hnot]
      rfl
    | true => rw [settleActive_of_matched hmatched]; rfl
  · -- the configuration is queried again
    rw [ftpEventDone]
    change (if ¬ tp.ack = true then
      if (queryConfig configured tp.title tp.appId).isNone = true
        then (tp.acknowledged configured, if active = some tp.handle then none else active)
        else (tp.acknowledged configured, settleActive (tp.acknowledged configured) active)
      else _) = _
    rw [if_pos hack, hquery]
    cases hmatched : (queryConfig configured tp.title tp.appId).isSome with
    | false =>
      rw [isActive_of_unmatched hmatched, if_neg Bool.false_ne_true]
      rfl
    | true => rw [settleActive_of_matched hmatched]; rfl

namespace Toplevels

/-- The toplevels that are active as of their last `done`. -/
def active (configured : List ConfigToplevel) (w : Toplevels) : Set ℕ :=
  { handle | ∃ tp ∈ w.toplevels, tp.handle = handle ∧ tp.wasActive configured = true }

structure Inv (configured : List ConfigToplevel) (w : Toplevels) : Prop where
  distinct : (w.toplevels.map Toplevel.handle).Nodup
  upToDate : ∀ tp ∈ w.toplevels, tp.UpToDate configured
  pointer : ∀ handle, w.activeToplevel = some handle → handle ∈ w.active configured

theorem init_inv (configured : List ConfigToplevel) : init.Inv configured :=
  ⟨List.nodup_nil, fun _ h => absurd h List.not_mem_nil, fun _ h => nomatch h⟩

/-- The toplevel that an event leaves inactive. -/
def loses (configured : List ConfigToplevel) (w : Toplevels) : ToplevelEvent → Option ℕ
  | .done handle =>
    if (w.find handle).any (fun tp => !tp.isActive configured) then some handle else none
  | .closed handle => if (w.find handle).isSome then some handle else none
  | _ => none

variable {configured : List ConfigToplevel} {w : Toplevels} {handle : ℕ}

theorem mem_of_find {tp : Toplevel} (h : w.find handle = some tp) :
    tp ∈ w.toplevels ∧ tp.handle = handle :=
  ⟨List.mem_of_find?_eq_some h, by simpa using List.find?_some h⟩

theorem find_of_mem (h : (w.toplevels.map Toplevel.handle).Nodup) {tp : Toplevel}
    (hmem : tp ∈ w.toplevels) : w.find tp.handle = some tp := by
  cases hfind : w.find tp.handle with
  | none => simpa using List.find?_eq_none.mp hfind tp hmem
  | some found =>
    obtain ⟨hfound, hhandle⟩ := mem_of_find hfind
    rw [List.inj_on_of_nodup_map h hfound hmem hhandle]

/-! ## Single changes -/

/-- Changes that are not done yet leave the active toplevels alone. -/
theorem onToplevel_inv {f : Toplevel → Toplevel} (h : w.Inv configured)
    (hhandle : ∀ tp, (f tp).handle = tp.handle) (hdone : ∀ tp, (f tp).done = tp.done)
    (hf : ∀ tp, tp.UpToDate configured → (f tp).UpToDate configured) :
    (w.onToplevel handle f).Inv configured ∧
      (w.onToplevel handle f).active configured = w.active configured := by
  let g := fun tp : Toplevel => if tp.handle = handle then f tp else tp
  have hg : ∀ tp, (g tp).handle = tp.handle ∧ (g tp).done = tp.done ∧
      (tp.UpToDate configured → (g tp).UpToDate configured) := by
    intro tp
    by_cases htp : tp.handle = handle
    · rw [show g tp = f tp from if_pos htp]
      exact ⟨hhandle tp, hdone tp, hf tp⟩
    · rw [show g tp = tp from if_neg htp]
      exact ⟨rfl, rfl, id⟩
  have hwas : ∀ tp, (g tp).wasActive configured = tp.wasActive configured := by
    intro tp
    rw [Toplevel.wasActive, (hg tp).2.1, Toplevel.wasActive]
  have hactive : (w.onToplevel handle f).active configured = w.active configured := by
    ext k
    constructor
    · rintro ⟨tp', hmem, hk, htp⟩
      obtain ⟨tp, hold, rfl⟩ := List.mem_map.mp hmem
      exact ⟨tp, hold, (hg tp).1 ▸ hk, (hwas tp) ▸ htp⟩
    · rintro ⟨tp, hmem, hk, htp⟩
      exact ⟨g tp, List.mem_map_of_mem hmem, (hg tp).1.trans hk, (hwas tp).trans htp⟩
  refine ⟨⟨?_, ?_, ?_⟩, hactive⟩
  · have hmap : ((w.onToplevel handle f).toplevels.map Toplevel.handle) =
        w.toplevels.map Toplevel.handle := by
      rw [onToplevel, List.map_map]
      exact List.map_congr_left fun tp _ => (hg tp).1
    rw [hmap]
    exact h.distinct
  · intro tp' hmem
    obtain ⟨tp, hold, rfl⟩ := List.mem_map.mp hmem
    exact (hg tp).2.2 (h.upToDate tp hold)
  · rw [hactive]
    exact h.pointer

/-- A title or an app id makes the next `done` ask the configuration again. -/
theorem forgets_upToDate {tp tp' : Toplevel} (h : tp.UpToDate configured)
    (hconfig : tp'.config = tp.config) (hdone : tp'.done = tp.done) (hack : tp'.ack = false) :
    tp'.UpToDate configured :=
  ⟨by rw [hconfig, hdone, h.config], fun h' => absurd (hack.symm.trans h') Bool.false_ne_true⟩

theorem title_inv (h : w.Inv configured) (handle : ℕ) (title : Option CString) :
    (w.onToplevel handle (ftpEventTitle title)).Inv configured ∧
      (w.onToplevel handle (ftpEventTitle title)).active configured = w.active configured :=
  onToplevel_inv h (fun _ => rfl) (fun _ => rfl) fun _ htp => forgets_upToDate htp rfl rfl rfl

theorem appId_inv (h : w.Inv configured) (handle : ℕ) (appId : Option CString) :
    (w.onToplevel handle (ftpEventAppId appId)).Inv configured ∧
      (w.onToplevel handle (ftpEventAppId appId)).active configured = w.active configured :=
  onToplevel_inv h (fun _ => rfl) (fun _ => rfl) fun _ htp => forgets_upToDate htp rfl rfl rfl

theorem state_inv (h : w.Inv configured) (handle : ℕ) (states : List ToplevelState) :
    (w.onToplevel handle (ftpEventState states)).Inv configured ∧
      (w.onToplevel handle (ftpEventState states)).active configured = w.active configured :=
  onToplevel_inv h (fun _ => rfl) (fun _ => rfl) fun _ htp => ⟨htp.config, htp.acked⟩

theorem addToplevel_inv (h : w.Inv configured) (handle : ℕ) (allocated : Bool) :
    (w.waylandAddToplevel handle allocated).Inv configured ∧
      (w.waylandAddToplevel handle allocated).active configured = w.active configured ∧
      (w.waylandAddToplevel handle allocated).activeToplevel = w.activeToplevel := by
  unfold waylandAddToplevel
  cases hfind : w.find handle with
  | some tp => exact ⟨h, rfl, rfl⟩
  | none =>
    cases allocated with
    | false => exact ⟨h, rfl, rfl⟩
    | true =>
      have hactive : active configured { w with
          toplevels := ⟨handle, none, none, false, false, none, none⟩ :: w.toplevels } =
          w.active configured := by
        ext k
        simp [active, Toplevel.wasActive]
      refine ⟨⟨?_, ?_, ?_⟩, hactive, rfl⟩
      · rw [if_pos rfl, List.map_cons, List.nodup_cons]
        refine ⟨fun hmem => ?_, h.distinct⟩
        obtain ⟨tp, htp, hhandle⟩ := List.mem_map.mp hmem
        simpa [hhandle] using List.find?_eq_none.mp hfind tp htp
      · rintro tp (_ | ⟨_, hmem⟩)
        · exact ⟨rfl, fun h' => absurd h' Bool.false_ne_true⟩
        · exact h.upToDate tp hmem
      · rw [if_pos rfl, hactive]
        exact h.pointer

theorem delToplevel_inv (h : w.Inv configured) (handle : ℕ) :
    (w.waylandDelToplevel handle).Inv configured ∧
      (w.waylandDelToplevel handle).active configured = w.active configured \ {handle} := by
  have hactive : (w.waylandDelToplevel handle).active configured =
      w.active configured \ {handle} := by
    ext k
    constructor
    · rintro ⟨tp, hmem, rfl, htp⟩
      obtain ⟨hold, hne⟩ := List.mem_filter.mp hmem
      exact ⟨⟨tp, hold, rfl, htp⟩, by simpa using hne⟩
    · rintro ⟨⟨tp, hmem, rfl, htp⟩, hne⟩
      exact ⟨tp, List.mem_filter.mpr ⟨hmem, by simpa using hne⟩, rfl, htp⟩
  refine ⟨⟨?_, ?_, ?_⟩, hactive⟩
  · exact h.distinct.sublist (List.filter_sublist.map _)
  · exact fun tp hmem => h.upToDate tp (List.mem_of_mem_filter hmem)
  · intro k hk
    rw [hactive]
    rw [waylandDelToplevel] at hk
    split_ifs at hk with hhere
    refine ⟨h.pointer k hk, ?_⟩
    rintro rfl
    exact hhere hk

/-- `done` for a toplevel that is there. -/
theorem eventDone_eq (h : w.Inv configured) {tp : Toplevel} (hfind : w.find handle = some tp) :
    w.eventDone configured handle =
      { w.onToplevel handle (fun _ => tp.acknowledged configured) with
        activeToplevel := if tp.isActive configured then some handle
          else if w.activeToplevel = some handle then none else w.activeToplevel } := by
  obtain ⟨hmem, rfl⟩ := mem_of_find hfind
  have hconfig : w.activeToplevel = some tp.handle → tp.config.isSome = true := by
    intro hhere
    obtain ⟨other, hother, hhandle, hwas⟩ := h.pointer _ hhere
    obtain rfl := List.inj_on_of_nodup_map h.distinct hother hmem hhandle
    exact ((h.upToDate _ hmem).wasActive_iff.mp hwas).1
  rw [eventDone, hfind]
  simp only [ftpEventDone_eq (h.upToDate tp hmem) hconfig]

theorem done_active {tp : Toplevel} (hfind : w.find handle = some tp)
    (active : Option ℕ) :
    Toplevels.active configured
        { w.onToplevel handle (fun _ => tp.acknowledged configured) with
          activeToplevel := active } =
      if tp.isActive configured then insert handle (w.active configured)
      else w.active configured \ {handle} := by
  obtain ⟨hmem, rfl⟩ := mem_of_find hfind
  have hothers : ∀ k, k ≠ tp.handle → (k ∈ Toplevels.active configured
      { w.onToplevel tp.handle (fun _ => tp.acknowledged configured) with
        activeToplevel := active } ↔ k ∈ w.active configured) := by
    intro k hk
    constructor
    · rintro ⟨tp', hmem', hhandle, hwas⟩
      obtain ⟨old, hold, rfl⟩ := List.mem_map.mp hmem'
      by_cases hhere : old.handle = tp.handle
      · rw [if_pos hhere] at hhandle
        exact absurd hhandle.symm hk
      · rw [if_neg hhere] at hhandle hwas
        exact ⟨old, hold, hhandle, hwas⟩
    · rintro ⟨old, hold, rfl, hwas⟩
      exact ⟨old, List.mem_map.mpr ⟨old, hold, if_neg hk⟩, rfl, hwas⟩
  have hself : tp.handle ∈ Toplevels.active configured
      { w.onToplevel tp.handle (fun _ => tp.acknowledged configured) with
        activeToplevel := active } ↔ tp.isActive configured = true := by
    constructor
    · rintro ⟨tp', hmem', hhandle, hwas⟩
      obtain ⟨old, hold, rfl⟩ := List.mem_map.mp hmem'
      by_cases hhere : old.handle = tp.handle
      · rwa [if_pos hhere, Toplevel.acknowledged_wasActive] at hwas
      · rw [if_neg hhere] at hhandle
        exact absurd hhandle hhere
    · exact fun hact => ⟨tp.acknowledged configured, List.mem_map.mpr ⟨tp, hmem, if_pos rfl⟩, rfl,
        hact⟩
  ext k
  by_cases hk : k = tp.handle
  · subst hk
    rw [hself]
    by_cases hact : tp.isActive configured = true <;> simp [hact]
  · rw [hothers k hk]
    by_cases hact : tp.isActive configured = true <;> simp [hact, hk]

theorem eventDone_inv (h : w.Inv configured) {tp : Toplevel} (hfind : w.find handle = some tp) :
    (w.eventDone configured handle).Inv configured := by
  rw [eventDone_eq h hfind]
  obtain ⟨hmem, rfl⟩ := mem_of_find hfind
  refine ⟨?_, ?_, ?_⟩
  · have hmap : (w.onToplevel tp.handle (fun _ => tp.acknowledged configured)).toplevels.map
        Toplevel.handle = w.toplevels.map Toplevel.handle := by
      rw [onToplevel, List.map_map]
      refine List.map_congr_left fun other _ => ?_
      by_cases hhere : other.handle = tp.handle
      · exact (congrArg Toplevel.handle (if_pos hhere)).trans hhere.symm
      · exact congrArg Toplevel.handle (if_neg hhere)
    exact hmap ▸ h.distinct
  · intro tp' hmem'
    obtain ⟨old, hold, rfl⟩ := List.mem_map.mp hmem'
    by_cases hhere : old.handle = tp.handle
    · exact (if_pos hhere : ite _ _ _ = _) ▸ tp.acknowledged_upToDate configured
    · exact (if_neg hhere : ite _ _ _ = _) ▸ h.upToDate old hold
  · intro k hk
    rw [done_active hfind]
    by_cases hact : tp.isActive configured = true
    · rw [if_pos hact] at hk ⊢
      obtain rfl : tp.handle = k := Option.some.inj hk
      exact Set.mem_insert _ _
    · simp only [if_neg hact] at hk ⊢
      split_ifs at hk with hhere
      refine ⟨h.pointer k hk, ?_⟩
      rintro rfl
      exact hhere hk

/-! ## What a step does -/

theorem finish_inv (h : w.Inv configured) (gone : List Toplevel) :
    (gone.foldl (fun w tp => w.waylandDelToplevel tp.handle) w).Inv configured := by
  induction gone generalizing w with
  | nil => exact h
  | cons tp gone ih => exact ih (delToplevel_inv h tp.handle).1

theorem finish_toplevels (w : Toplevels) (gone : List Toplevel) :
    ∀ tp ∈ (gone.foldl (fun w tp => w.waylandDelToplevel tp.handle) w).toplevels,
      tp ∈ w.toplevels ∧ tp ∉ gone := by
  induction gone generalizing w with
  | nil => exact fun tp hmem => ⟨hmem, List.not_mem_nil⟩
  | cons first gone ih =>
    intro tp hmem
    obtain ⟨hleft, hnot⟩ := ih _ tp hmem
    obtain ⟨hold, hne⟩ := List.mem_filter.mp hleft
    refine ⟨hold, ?_⟩
    rintro (_ | ⟨_, htail⟩)
    · simp at hne
    · exact hnot htail

theorem step_inv (h : w.Inv configured) (event : ToplevelEvent) :
    (w.step configured event).Inv configured := by
  cases event with
  | toplevel handle allocated => exact (addToplevel_inv h handle allocated).1
  | title handle title => exact (title_inv h handle title).1
  | appId handle appId => exact (appId_inv h handle appId).1
  | state handle states => exact (state_inv h handle states).1
  | done handle =>
    change (w.eventDone configured handle).Inv configured
    cases hfind : w.find handle with
    | none =>
      have hsame : w.eventDone configured handle = w := by rw [eventDone, hfind]
      rw [hsame]
      exact h
    | some tp => exact eventDone_inv h hfind
  | closed handle =>
    change (if (w.find handle).isSome then w.waylandDelToplevel handle else w).Inv configured
    split
    · exact (delToplevel_inv h handle).1
    · exact h
  | finished => exact finish_inv h w.toplevels

/-- Nothing happens, a toplevel is active now and has the pointer, one is inactive now and has it
no more, or all of them are gone. -/
theorem step_cases (h : w.Inv configured) (event : ToplevelEvent) :
    ((w.step configured event).active configured = w.active configured ∧
      (w.step configured event).activeToplevel = w.activeToplevel ∧
      w.loses configured event = none) ∨
    (∃ handle, (w.step configured event).activeToplevel = some handle ∧
      w.loses configured event = none) ∨
    (∃ handle, (w.step configured event).active configured = w.active configured \ {handle} ∧
      (w.step configured event).activeToplevel =
        (if w.activeToplevel = some handle then none else w.activeToplevel) ∧
      w.loses configured event = some handle) ∨
    ((w.step configured event).toplevels = [] ∧ w.loses configured event = none) := by
  cases event with
  | toplevel handle allocated =>
    obtain ⟨-, hactive, hpointer⟩ := addToplevel_inv h handle allocated
    exact .inl ⟨hactive, hpointer, rfl⟩
  | title handle title => exact .inl ⟨(title_inv h handle title).2, rfl, rfl⟩
  | appId handle appId => exact .inl ⟨(appId_inv h handle appId).2, rfl, rfl⟩
  | state handle states => exact .inl ⟨(state_inv h handle states).2, rfl, rfl⟩
  | done handle =>
    change ((w.eventDone configured handle).active configured = _ ∧
      (w.eventDone configured handle).activeToplevel = _ ∧ _) ∨ _
    cases hfind : w.find handle with
    | none =>
      have hsame : w.eventDone configured handle = w := by rw [eventDone, hfind]
      exact .inl ⟨by rw [hsame], by rw [hsame], by rw [loses, hfind]; rfl⟩
    | some tp =>
      have hstep : w.step configured (.done handle) = _ := eventDone_eq h hfind
      rw [hstep]
      by_cases hact : tp.isActive configured = true
      · refine .inr (.inl ⟨handle, if_pos hact, ?_⟩)
        simp [loses, hfind, hact]
      · refine .inr (.inr (.inl ⟨handle, ?_, if_neg hact, ?_⟩))
        · rw [done_active hfind, if_neg hact]
        · simp [loses, hfind, hact]
  | closed handle =>
    cases hfind : (w.find handle).isSome with
    | true =>
      have hstep : w.step configured (.closed handle) = w.waylandDelToplevel handle :=
        if_pos hfind
      rw [hstep]
      exact .inr (.inr (.inl ⟨handle, (delToplevel_inv h handle).2, rfl, if_pos hfind⟩))
    | false =>
      have hfind' : ¬ (w.find handle).isSome = true := by rw [hfind]; exact Bool.false_ne_true
      have hstep : w.step configured (.closed handle) = w := if_neg hfind'
      exact .inl ⟨by rw [hstep], by rw [hstep], if_neg hfind'⟩
  | finished =>
    refine .inr (.inr (.inr ⟨List.eq_nil_iff_forall_not_mem.mpr fun tp hmem => ?_, rfl⟩))
    obtain ⟨hold, hnot⟩ := finish_toplevels w w.toplevels tp hmem
    exact hnot hold

/-! ## The pointer -/

/-- The pointer names a toplevel that is there, is matched and was activated. -/
def Sound (w : Toplevels) : Prop :=
  ∀ handle, w.activeToplevel = some handle →
    ∃ tp ∈ w.toplevels, tp.handle = handle ∧ tp.config.isSome = true ∧ tp.wasActivated = true

/-- Some toplevel is active only if the pointer names one. -/
def Complete (configured : List ConfigToplevel) (w : Toplevels) : Prop :=
  ∀ tp ∈ w.toplevels, tp.wasActive configured = true → w.activeToplevel.isSome = true

/-- The event does not take the pointer from its toplevel while another one is active. -/
def KeepsPointer (configured : List ConfigToplevel) (w : Toplevels) (event : ToplevelEvent) :
    Prop :=
  ∀ handle, w.loses configured event = some handle → w.activeToplevel = some handle →
    ∀ tp ∈ w.toplevels, tp.handle ≠ handle → tp.wasActive configured = false

theorem Inv.sound (h : w.Inv configured) : w.Sound := by
  intro handle hpointer
  obtain ⟨tp, hmem, hhandle, hwas⟩ := h.pointer handle hpointer
  obtain ⟨hconfig, hactivated⟩ := (h.upToDate tp hmem).wasActive_iff.mp hwas
  exact ⟨tp, hmem, hhandle, hconfig, hactivated⟩

theorem complete_iff : w.Complete configured ↔
    ∀ handle ∈ w.active configured, w.activeToplevel ≠ none := by
  constructor
  · rintro h handle ⟨tp, hmem, -, hwas⟩
    exact Option.isSome_iff_ne_none.mp (h tp hmem hwas)
  · exact fun h tp hmem hwas => Option.isSome_iff_ne_none.mpr (h tp.handle ⟨tp, hmem, rfl, hwas⟩)

theorem step_complete_iff (h : w.Inv configured) (hcomplete : w.Complete configured)
    (event : ToplevelEvent) :
    (w.step configured event).Complete configured ↔ w.KeepsPointer configured event := by
  rw [complete_iff] at hcomplete ⊢
  rcases step_cases h event with ⟨hactive, hpointer, hloses⟩ | ⟨handle, hpointer, hloses⟩ |
    ⟨handle, hactive, hpointer, hloses⟩ | ⟨hgone, hloses⟩
  · rw [hactive, hpointer]
    exact ⟨fun _ k hk => (nomatch hloses.symm.trans hk), fun _ => hcomplete⟩
  · rw [hpointer]
    exact ⟨fun _ k hk => (nomatch hloses.symm.trans hk), fun _ _ _ => Option.some_ne_none handle⟩
  · rw [hactive, hpointer]
    constructor
    · intro hnext k hk hhere tp hmem hne
      obtain rfl : handle = k := Option.some.inj (hloses.symm.trans hk)
      rw [if_pos hhere] at hnext
      by_contra hwas
      exact hnext tp.handle ⟨⟨tp, hmem, rfl, by simpa using hwas⟩, hne⟩ rfl
    · rintro hkeeps k ⟨⟨tp, hmem, rfl, hwas⟩, hne⟩
      by_cases hhere : w.activeToplevel = some handle
      · have hnot := hkeeps handle hloses hhere tp hmem hne
        rw [hwas] at hnot
        cases hnot
      · rw [if_neg hhere]
        exact hcomplete tp.handle ⟨tp, hmem, rfl, hwas⟩
  · refine ⟨fun _ k hk => (nomatch hloses.symm.trans hk), ?_⟩
    rintro - k ⟨tp, hmem, -⟩
    rw [hgone] at hmem
    cases hmem

theorem run_inv (configured : List ConfigToplevel) (events : List ToplevelEvent) :
    (run (step configured) init events).Inv configured :=
  run_invariant (C := fun _ _ => True) (I := Inv configured) (fun _ event h _ => step_inv h event)
    (init_inv configured) (Meets.of_mem fun _ _ _ => trivial)

/-- The pointer is always right. It is there whenever a toplevel is active just as long as no event
takes it from its toplevel while another one is active. -/
theorem active_toplevel_iff (configured : List ConfigToplevel) (events : List ToplevelEvent) :
    (∀ es, es <+: events → (run (step configured) init es).Sound) ∧
      ((∀ es, es <+: events → (run (step configured) init es).Complete configured) ↔
        Meets (step configured) (KeepsPointer configured) init events) := by
  constructor
  · exact fun es _ => (run_inv configured es).sound
  · exact throughout_iff (I := Inv configured) (fun _ event h => step_inv h event)
      (fun _ event h hcomplete => step_complete_iff h hcomplete event) (init_inv configured)
      (fun _ hmem => absurd hmem List.not_mem_nil)

/-- A configured toplevel without patterns, which matches all of them. -/
def matchesAll : ConfigToplevel := ⟨⟨[], [], []⟩, [], []⟩

/-- Two toplevels are activated, then the second one is not any more. -/
def secondDeactivated : List ToplevelEvent :=
  [.toplevel 1 true, .state 1 [.activated], .done 1, .toplevel 2 true, .state 2 [.activated],
    .done 2, .state 2 [], .done 2]

theorem secondDeactivated_not_complete :
    ¬ (run (step [matchesAll]) init secondDeactivated).Complete [matchesAll] := by
  unfold Complete
  decide

/-! ## The filter -/

/-- The filter of the active toplevel is there whenever the pointer is: the assertion in
`data_offer_event_offer` does not fail. -/
theorem Inv.activeFilter_isSome (h : w.Inv configured) :
    w.activeFilter.isSome = w.activeToplevel.isSome := by
  cases hpointer : w.activeToplevel with
  | none => rw [activeFilter, hpointer]; rfl
  | some handle =>
    obtain ⟨tp, hmem, rfl, hwas⟩ := h.pointer handle hpointer
    obtain ⟨config, hconfig⟩ :=
      Option.isSome_iff_exists.mp ((h.upToDate tp hmem).wasActive_iff.mp hwas).1
    rw [activeFilter, hpointer, Option.bind_some, find_of_mem h.distinct hmem, Option.bind_some,
      hconfig]
    rfl

end Toplevels

end Swayclip
