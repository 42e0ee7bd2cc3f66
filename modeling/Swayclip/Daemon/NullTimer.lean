import Swayclip.Daemon.Reachability
import Swayclip.Wayland.Offer

/-! # The null timer

A NULL selection event arms a timer, and the daemon becomes the source client when it
expires without a new offer. Both ends of this go wrong through the flag `blocked` of the
seat: it outlives its offer, so that a NULL event is dropped, and it makes the daemon
forget a live offer, so that an armed timer replaces it.
-/

namespace Swayclip
open Library.Runs State

def armed (s : State) (name : SelectionName) : Bool :=
  (s.findSeat name.1).any (fun seat => (seat.sel name.2).nullTimer)

/-! ## Offers on the seat -/

theorem step_onSeat {s : State} {n : ℕ} {seat : Seat} (hseat : s.findSeat n = some seat)
    (henabled : seat.enabled = true) (f : Seat → State → State) :
    s.onSeat n f = f seat s := by
  rw [onSeat, hseat]
  simp only [henabled, if_true]

/-- An offer leaves on its seat what the two filters make of it. -/
theorem findSeat_offerEvents {s : State} {n : ℕ} {seat : Seat} (hseat : s.findSeat n = some seat)
    (henabled : seat.enabled = true) (offered : List CString) :
    (run step s (offerEvents n offered)).findSeat n =
      some { seat with
        toCollected := announce s.config.toMimeFilter s.activeToplevel offered } := by
  have hoffers : ∀ (offered : List CString) (s' : State) (seat' : Seat), s'.config = s.config →
      s'.activeToplevel = s.activeToplevel → s'.findSeat n = some seat' → seat'.enabled = true →
      (run step s' (offered.map fun m => .quiet (.offer n m))).findSeat n =
        some { seat' with toCollected := offered.foldl (fun c m =>
          dataOfferEventOffer s.config.toMimeFilter s.activeToplevel m c) seat'.toCollected } := by
    intro offered
    induction offered with
    | nil => exact fun s' seat' _ _ hfound _ => hfound
    | cons m offered ih =>
      intro s' seat' hconfig htop hfound henabled'
      have hstep : step s' (.quiet (.offer n m)) = s'.offer m seat' :=
        step_onSeat hfound henabled' (State.offer m)
      have hname : seat'.globalName = n := findSeat_globalName hfound
      rw [List.map_cons, run_cons, hstep, List.foldl_cons]
      refine ih (s'.offer m seat') { seat' with toCollected := _ } hconfig htop ?_ henabled'
      rw [State.offer, hconfig, htop]
      exact findSeat_putSeat hfound hname
  have hstep : step s (.quiet (.dataOffer n)) = s.dataOffer seat :=
    step_onSeat hseat henabled State.dataOffer
  rw [offerEvents, run_cons, hstep]
  have hname : seat.globalName = n := findSeat_globalName hseat
  exact hoffers offered (s.dataOffer seat) { seat with toCollected := dataDeviceEventDataOffer } rfl
    rfl (findSeat_putSeat hseat hname) henabled

/-! ## A NULL event -/

/-- The daemon could take over the selection: it is enabled, nobody's source is the daemon's
own, and there is a current entry. -/
structure CanTakeOver (s : State) (name : SelectionName) (seat : Seat) : Prop where
  found : s.findSeat name.1 = some seat
  seatEnabled : seat.enabled = true
  enabled : (seat.sel name.2).enabled = true
  noSource : (seat.sel name.2).extDataSource = none
  current : s.id ≠ -1

/-- A NULL event leaves the timer armed unless the last offer on the seat was blocked, be it
an offer for the other selection. -/
theorem step_null_armed_iff {s : State} {name : SelectionName} {seat : Seat}
    (h : CanTakeOver s name seat) (ambient : ℕ → Ambient) :
    armed (step s ⟨.selection name none true, ambient⟩) name = true ↔
      armed s name = true ∨ seat.blocked = false := by
  have hcases := selection_cases (ambient 0) name.2 none true seat s
  have hstep : step s ⟨.selection name none true, ambient⟩ = s.putSeat (seat.setSel name.2
      (selectionEvent seat.blocked false s.wsignalCanSet true (seat.sel name.2)).2) := by
    rw [step, handle, step_onSeat h.found h.seatEnabled]
    rcases hcases with hc | ⟨written, hoffer, -⟩
    · exact hc
    · cases hoffer
  have hname : (seat.setSel name.2 (selectionEvent seat.blocked false s.wsignalCanSet true
      (seat.sel name.2)).2).globalName = name.1 := by
    rw [Seat.setSel_globalName, findSeat_globalName h.found]
  have hcan : s.wsignalCanSet = true := by simpa [wsignalCanSet] using h.current
  rw [armed, hstep, findSeat_putSeat h.found hname, armed, h.found, Option.any_some,
    Option.any_some, Seat.sel_setSel]
  simp only [selectionEvent, h.enabled, h.noSource, hcan]
  cases seat.blocked <;> cases (seat.sel name.2).nullTimer <;> simp

def NullArms (s : State) (i : Input) : Prop :=
  ∀ name seat, i.event = .selection name none true → CanTakeOver s name seat →
    armed (step s i) name = true

/-- A NULL event, if this is one, finds its timer armed or the last offer not blocked. -/
def NullFindsUnblocked (s : State) (i : Input) : Prop :=
  ∀ name seat, i.event = .selection name none true → CanTakeOver s name seat →
    armed s name = true ∨ seat.blocked = false

/-- In which runs every NULL event leaves the timer armed. -/
theorem null_selections_arm_iff (config : Config) (a : Ambient) (inputs : List Input) :
    Meets step NullArms (boot config a) inputs ↔
      Meets step NullFindsUnblocked (boot config a) inputs := by
  refine Meets.congr fun s i => ?_
  obtain ⟨event, ambient⟩ := i
  refine forall₂_congr fun name seat => ?_
  constructor
  · rintro harms rfl h
    exact (step_null_armed_iff h ambient).mp (harms rfl h)
  · rintro hfinds rfl h
    exact (step_null_armed_iff h ambient).mpr (hfinds rfl h)

def configNoPasswords : Config := { configInit with toMimeFilter := blockPasswords }

def textThenPassword : List Input :=
  .quiet (.addSeat 0 seat0) :: (copy (0, .regular) [(textPlain, [65])] ++
    copy (0, .regular) [(passwordHint, [115])])

/-- When the owner of a blocked offer exits, the text is not restored. -/
theorem null_selection_dropped_after_password :
    ¬ Meets step NullArms (boot configNoPasswords (.quiet 0))
      (textThenPassword ++ [gone (0, .regular)]) := by
  intro h
  obtain ⟨-, harms, -⟩ := Meets.append.mp h
  obtain ⟨seat, hseat⟩ := Option.isSome_iff_exists.mp (show Option.isSome (State.findSeat
    (run step (boot configNoPasswords (.quiet 0)) textThenPassword) 0) = true by decide +kernel)
  have hfields : ∀ x ∈ State.findSeat
      (run step (boot configNoPasswords (.quiet 0)) textThenPassword) 0,
      x.enabled = true ∧ x.selRegular.enabled = true ∧
        x.selRegular.extDataSource.isNone = true := by decide +kernel
  obtain ⟨henabled, hsel, hsource⟩ := hfields seat hseat
  have harmed := harms (0, .regular) seat rfl
    ⟨hseat, henabled, hsel, Option.isNone_iff_eq_none.mp hsource, by decide +kernel⟩
  exact absurd harmed (by decide +kernel)

/-! ## The expiry -/

/-- The expiring timer makes the daemon the source client of the selection. -/
def takesOver (s : State) (i : Input) (name : SelectionName) : Bool :=
  match i.event with
  | .nullTimer other ok =>
    other = name && ok && (s.findSeat name.1).any (fun seat =>
      seat.enabled && (seat.sel name.2).nullTimer && !(seat.sel name.2).extDataOffer &&
        (s.setCallback (i.ambient 0).sql name).1.isSome)
  | _ => false

/-- On a selection without a source, the daemon has one after the expiry exactly if the timer
took over. -/
theorem takesOver_iff {s : State} {name : SelectionName} {seat : Seat} (ok : Bool)
    (ambient : ℕ → Ambient) (hseat : s.findSeat name.1 = some seat)
    (henabled : seat.enabled = true) (hsource : (seat.sel name.2).extDataSource = none) :
    takesOver s ⟨.nullTimer name ok, ambient⟩ name = true ↔
      ((step s ⟨.nullTimer name ok, ambient⟩).findSeat name.1).any
        (fun seat => (seat.sel name.2).extDataSource.isSome) = true := by
  have hname : ∀ sel, (seat.setSel name.2 sel).globalName = name.1 := fun sel => by
    rw [Seat.setSel_globalName, findSeat_globalName hseat]
  have hself : (seat.globalName, name.2) = name := by rw [findSeat_globalName hseat]
  rw [step, handle, step_onSeat hseat henabled, nullTimer, takesOver, hseat, hself]
  cases htimer : (seat.sel name.2).nullTimer with
  | false => simp [hseat, hsource, htimer]
  | true =>
    rw [if_pos rfl, findSeat_putSeat hseat (hname _), Option.any_some, Option.any_some,
      Seat.sel_setSel, nullTimerCallback]
    cases ok <;> cases hoffer : (seat.sel name.2).extDataOffer <;>
      simp [henabled, hsource, htimer, selectionSet]
    split <;> simp_all

/-- The selection events that the compositor has sent for the selection: whether each had
an offer. -/
def selectionLog (name : SelectionName) (s : State) (i : Input) : List Bool :=
  match i.event with
  | .selection other offer _ =>
    if other = name ∧ (s.findSeat name.1).any (fun seat => seat.enabled) then [offer.isSome] else []
  | _ => []

/-- A selection event with a live offer is dropped while the timer is armed, since the offer
is blocked or the daemon owns a source there. -/
def dropsLive (s : State) (i : Input) : Bool :=
  match i.event with
  | .selection name (some _) _ =>
    (s.findSeat name.1).any (fun seat => seat.enabled && (seat.sel name.2).nullTimer &&
      ((seat.sel name.2).extDataSource.isSome || seat.blocked))
  | _ => false

def sameButSource (sel' sel : Selection) : Prop :=
  { sel' with extDataSource := none, created := 0 } =
    { sel with extDataSource := none, created := 0 }

theorem sameButSource_sel {seat' seat : Seat} (h : seat'.forgetSources = seat.forgetSources)
    (type : SelectionType) : sameButSource (seat'.sel type) (seat.sel type) := by
  rw [sameButSource, ← Seat.sel_forgetSources, ← Seat.sel_forgetSources, h]

/-- What a step does to a selection, apart from its source: nothing, unless the seat is new,
the timer expires or the selection receives an event. -/
inductive SelStep (s : State) (i : Input) (name : SelectionName) (sel' : Selection) : Prop
  | disarmed (h : sel'.nullTimer = false)
  | same (seat : Seat) (hseat : s.findSeat name.1 = some seat) (hlog : selectionLog name s i = [])
      (h : sameButSource sel' (seat.sel name.2))
  | event (seat : Seat) (hseat : s.findSeat name.1 = some seat) (henabled : seat.enabled = true)
      (offer : Option (ℕ → Option Bytes)) (timerOk : Bool)
      (hevent : i.event = .selection name offer timerOk)
      (h : sameButSource sel' (selectionEvent seat.blocked offer.isSome s.wsignalCanSet timerOk
        (seat.sel name.2)).2)

/-- Of the seat that received a selection event, the callback changes sources only. -/
theorem findSeat_selection {a : Ambient} {type : SelectionType}
    {offer : Option (ℕ → Option Bytes)} {timerOk : Bool} {s : State} {seat seat' : Seat} {m : ℕ}
    (h : (s.selection a type offer timerOk seat).findSeat m = some seat') :
    ∃ old, (s.putSeat (seat.setSel type (selectionEvent seat.blocked offer.isSome s.wsignalCanSet
        timerOk (seat.sel type)).2)).findSeat m = some old ∧
      ∀ t, sameButSource (seat'.sel t) (old.sel t) := by
  rcases selection_cases a type offer timerOk seat s with hs | ⟨written, -, -, -, -, hs⟩ <;>
    rw [hs] at h
  · exact ⟨seat', h, fun t => rfl⟩
  · rw [findSeat_clearMimeTypes, Option.map_eq_some_iff] at h
    obtain ⟨mid, hmid, rfl⟩ := h
    have hsession := (wsignalSelection_session a (seat.globalName, type) written seat.mimeTypes
      seat.transient (s.putSeat (seat.setSel type (selectionEvent seat.blocked offer.isSome
        s.wsignalCanSet timerOk (seat.sel type)).2))).findSeat m
    rw [hmid, Option.map_some, eq_comm, Option.map_eq_some_iff] at hsession
    obtain ⟨old, hold, hforget⟩ := hsession
    refine ⟨old, hold, fun t => ?_⟩
    have hclear : ∀ seat : Seat, (seatClearMimeTypes seat).sel t = seat.sel t := by
      intro seat
      cases t <;> rfl
    split
    · rw [hclear]
      exact sameButSource_sel hforget.symm t
    · exact sameButSource_sel hforget.symm t

theorem setSel_sel (seat : Seat) (name : SelectionName) (type : SelectionType) (sel : Selection) :
    (seat.setSel type sel).sel name.2 = if name.2 = type then sel else seat.sel name.2 := by
  split
  · rename_i h
    rw [h, Seat.sel_setSel]
  · rename_i h
    exact Seat.sel_setSel_of_ne seat sel h

theorem findSeat_onSeat {s : State} {n m : ℕ} {f : Seat → State → State} {g : Seat → Seat}
    (hf : ∀ seat, f seat s = s.putSeat (g seat))
    (hg : ∀ seat, (g seat).globalName = seat.globalName)
    {seat' : Seat} (h : (s.onSeat n f).findSeat m = some seat') :
    s.findSeat m = some seat' ∨ ∃ seat, s.findSeat m = some seat ∧ seat' = g seat := by
  rcases onSeat_cases n f s with he | ⟨seat, hseat, -, he⟩ <;> rw [he] at h
  · exact Or.inl h
  · rw [hf, findSeat_putSeat_eq hseat (by rw [hg, findSeat_globalName hseat])] at h
    split at h
    · rename_i hn
      exact Or.inr ⟨seat, hn ▸ hseat, (Option.some.inj h).symm⟩
    · exact Or.inl h

theorem selectionLog_eq_nil {name other : SelectionName} {s : State}
    {offer : Option (ℕ → Option Bytes)} {timerOk : Bool} {ambient : ℕ → Ambient}
    (h : other = name → (s.findSeat name.1).any (fun seat => seat.enabled) = false) :
    selectionLog name s ⟨.selection other offer timerOk, ambient⟩ = [] := by
  refine if_neg ?_
  rintro ⟨ho, hany⟩
  rw [h ho] at hany
  cases hany

theorem step_sel_selection {s : State} {name other : SelectionName}
    {offer : Option (ℕ → Option Bytes)} {timerOk : Bool} {ambient : ℕ → Ambient} {seat' : Seat}
    (h : (step s ⟨.selection other offer timerOk, ambient⟩).findSeat name.1 = some seat') :
    SelStep s ⟨.selection other offer timerOk, ambient⟩ name (seat'.sel name.2) := by
  rw [step, handle, onSeat] at h
  cases hseat : s.findSeat other.1 with
  | none =>
    rw [hseat] at h
    exact .same seat' h (selectionLog_eq_nil fun ho => by rw [← ho, hseat]; rfl) rfl
  | some seat =>
    rw [hseat] at h
    dsimp only at h
    cases henabled : seat.enabled with
    | false =>
      rw [henabled] at h
      exact .same seat' h (selectionLog_eq_nil fun ho => by
        rw [← ho, hseat, Option.any_some, henabled]) rfl
    | true =>
      rw [henabled, if_pos rfl] at h
      obtain ⟨old, hold, hsame⟩ := findSeat_selection h
      have hsel := hsame name.2
      rw [findSeat_putSeat_eq hseat (by rw [Seat.setSel_globalName, findSeat_globalName hseat])]
        at hold
      split at hold
      · rename_i hn
        obtain rfl := Option.some.inj hold
        rw [setSel_sel] at hsel
        split at hsel
        · rename_i htype
          obtain rfl : name = other := Prod.ext hn htype
          exact .event seat hseat henabled offer timerOk rfl hsel
        · rename_i htype
          exact .same seat (hn ▸ hseat)
            (selectionLog_eq_nil fun ho => absurd (congrArg Prod.snd ho).symm htype) hsel
      · rename_i hn
        exact .same old hold
          (selectionLog_eq_nil fun ho => absurd (congrArg Prod.fst ho).symm hn) hsel

theorem step_sel {s : State} {i : Input} {name : SelectionName} {seat' : Seat}
    (h : (step s i).findSeat name.1 = some seat') : SelStep s i name (seat'.sel name.2) := by
  obtain ⟨event, ambient⟩ := i
  cases event with
  | restart config => cases h
  | addSeat n seatName =>
    simp only [step, handle, addSeat] at h
    split at h
    · exact .same seat' h rfl rfl
    · rw [findSeat, List.find?_cons] at h
      split at h
      · obtain rfl := Option.some.inj h
        refine .disarmed ?_
        have hnew : ((newSeat s.config n seatName).sel name.2).nullTimer = false := by
          cases name.2 <;> rfl
        split
        · have hforget := sameButSource_sel (seatSet_forgetSources (s.setCallback (ambient 0).sql)
            none (newSeat s.config n seatName)) name.2
          exact (congrArg Selection.nullTimer hforget).trans hnew
        · exact hnew
      · exact .same seat' h rfl rfl
  | removeSeat n =>
    rw [step, handle, findSeat_removeSeat] at h
    split at h
    · cases h
    · exact .same seat' h rfl rfl
  | dataOffer n =>
    rcases findSeat_onSeat (f := dataOffer) (fun _ => rfl) (fun _ => rfl) h with
      hs | ⟨seat, hs, rfl⟩
    · exact .same seat' hs rfl rfl
    · exact .same seat hs rfl (by cases name.2 <;> rfl)
  | offer n m =>
    rcases findSeat_onSeat (f := State.offer m) (fun _ => rfl) (fun _ => rfl) h with
      hs | ⟨seat, hs, rfl⟩
    · exact .same seat' hs rfl rfl
    · exact .same seat hs rfl (by cases name.2 <;> rfl)
  | selection other offer timerOk => exact step_sel_selection h
  | cancelled other current =>
    rcases findSeat_onSeat (f := cancelled other.2 current) (fun _ => rfl)
      (fun seat => Seat.setSel_globalName ..) h with hs | ⟨seat, hs, rfl⟩
    · exact .same seat' hs rfl rfl
    · refine .same seat hs rfl ?_
      rw [setSel_sel]
      split
      · rename_i htype
        rw [← htype, dataSourceEventCancelled]
        split <;> rfl
      · rfl
  | nullTimer other ok =>
    rcases onSeat_cases other.1 (nullTimer (ambient 0) other.2 ok) s with
      he | ⟨seat, hseat, -, he⟩ <;> rw [step, handle, he] at h
    · exact .same seat' h rfl rfl
    · rw [nullTimer] at h
      split at h
      · rw [findSeat_putSeat_eq hseat (by rw [Seat.setSel_globalName,
          findSeat_globalName hseat])] at h
        split at h
        · rename_i hn
          obtain rfl := Option.some.inj h
          rw [setSel_sel]
          split
          · exact .disarmed rfl
          · exact .same seat (hn ▸ hseat) rfl rfl
        · exact .same seat' h rfl rfl
      · exact .same seat' h rfl rfl
  | toplevel tp | disconnect fd => exact .same seat' h rfl rfl
  | connect fd =>
    rw [step, handle, connect] at h
    split at h <;> exact .same seat' h rfl rfl
  | message fd msg =>
    rw [step, handle] at h
    split at h
    · exact .same seat' h rfl rfl
    · rename_i client _
      have hsession := (messageCallback_session ambient client msg s).findSeat name.1
      rw [h, Option.map_some, eq_comm, Option.map_eq_some_iff] at hsession
      obtain ⟨seat, hseat, hforget⟩ := hsession
      exact .same seat hseat rfl (sameButSource_sel hforget.symm name.2)

/-! ## The invariant -/

theorem selectionEvent_armed_enabled {blocked offer canSet timerOk : Bool} {sel : Selection}
    (hsel : sel.nullTimer = true → sel.enabled = true)
    (harmed : (selectionEvent blocked offer canSet timerOk sel).2.nullTimer = true) :
    sel.enabled = true := by
  cases henabled : sel.enabled with
  | true => rfl
  | false =>
    simp only [selectionEvent, henabled, Bool.not_false, if_true] at harmed
    exact henabled.symm.trans (hsel harmed)

/-- If the timer is armed after an event, then without a live offer the event was NULL. -/
theorem selectionEvent_armed {blocked offer canSet timerOk : Bool} {sel : Selection}
    (henabled : sel.enabled = true)
    (hlive : offer = true → sel.nullTimer = true → (sel.extDataSource.isSome || blocked) = false)
    (harmed : (selectionEvent blocked offer canSet timerOk sel).2.nullTimer = true)
    (hoffer : (selectionEvent blocked offer canSet timerOk sel).2.extDataOffer = false) :
    offer = false := by
  cases offer with
  | false => rfl
  | true =>
    simp only [selectionEvent, henabled, Bool.not_true, Bool.false_eq_true, if_false]
      at harmed hoffer
    split at harmed
    · rename_i hdropped
      exact absurd hdropped (by simp [hlive rfl harmed])
    · rename_i hkept
      rw [if_neg hkept] at hoffer
      exact hoffer

def ArmedEnabled (s : State) : Prop :=
  ∀ (name : SelectionName) seat, s.findSeat name.1 = some seat →
    (seat.sel name.2).nullTimer = true → (seat.sel name.2).enabled = true

theorem Reachable.armedEnabled {s : State} (h : Reachable s) : ArmedEnabled s := by
  have hboot : ∀ config a, ArmedEnabled (Swayclip.boot config a) :=
      fun config a name seat hseat => by
    cases hseat
  refine h.induction hboot fun s i hs name seat' hseat' harmed => ?_
  rcases step_sel hseat' with hd | ⟨seat, hseat, -, hsame⟩ |
    ⟨seat, hseat, -, offer, timerOk, -, hsame⟩
  · rw [hd] at harmed
    cases harmed
  · have htimer := congrArg Selection.nullTimer hsame
    have hsel := congrArg Selection.enabled hsame
    exact hsel.trans (hs name seat hseat (htimer.symm.trans harmed))
  · have htimer := congrArg Selection.nullTimer hsame
    have hsel := congrArg Selection.enabled hsame
    refine hsel.trans ((selectionEvent_source ..).2.trans ?_)
    exact selectionEvent_armed_enabled (hs name seat hseat) (htimer.symm.trans harmed)

/-- While the timer is armed, the last selection event was NULL unless an offer is live. -/
def TimerInv (name : SelectionName) (log : List Bool) (s : State) : Prop :=
  ∀ seat, s.findSeat name.1 = some seat → (seat.sel name.2).nullTimer = true →
    (seat.sel name.2).extDataOffer = false → log.getLast? = some false

theorem step_timerInv {name : SelectionName} {log : List Bool} {s : State} {i : Input}
    (hs : Reachable s) (h : TimerInv name log s) (hlive : dropsLive s i = false) :
    TimerInv name (log ++ selectionLog name s i) (step s i) := by
  intro seat' hseat' harmed hnot
  have henabled' := (hs.step i).armedEnabled name seat' hseat' harmed
  rcases step_sel hseat' with hd | ⟨seat, hseat, hlog, hsame⟩ |
    ⟨seat, hseat, henabled, offer, timerOk, hevent, hsame⟩
  · rw [hd] at harmed
    cases harmed
  · have htimer := congrArg Selection.nullTimer hsame
    have hoffer := congrArg Selection.extDataOffer hsame
    rw [hlog, List.append_nil]
    exact h seat hseat (htimer.symm.trans harmed) (hoffer.symm.trans hnot)
  · have htimer := congrArg Selection.nullTimer hsame
    have hoffer := congrArg Selection.extDataOffer hsame
    have hsel := congrArg Selection.enabled hsame
    have hlog : selectionLog name s i = [offer.isSome] := by
      rw [selectionLog, hevent]
      exact if_pos ⟨rfl, by rw [hseat, Option.any_some, henabled]⟩
    rw [hlog, List.getLast?_concat, Option.some.injEq]
    refine selectionEvent_armed
      ((selectionEvent_source ..).2.symm.trans (hsel.symm.trans henabled'))
      (fun ho ht => ?_) (htimer.symm.trans harmed) (hoffer.symm.trans hnot)
    obtain ⟨written, rfl⟩ := Option.isSome_iff_exists.mp ho
    simpa [dropsLive, hevent, hseat, henabled, ht] using hlive

/-- Before a live offer is dropped while the timer is armed, an expiring timer replaces
nothing: the last selection event was NULL. -/
theorem nullTimer_replaces_nothing (config : Config) (a : Ambient) (name : SelectionName)
    (inputs : List Input) (i : Input)
    (hlive : Meets step (fun s i => dropsLive s i = false) (boot config a) inputs)
    (h : takesOver (run step (boot config a) inputs) i name = true) :
    (record step (selectionLog name) (boot config a) inputs).getLast? = some false := by
  have hboot : Reachable (boot config a) ∧ TimerInv name [] (boot config a) :=
    ⟨Reachable.boot config a, fun _ hseat => by cases hseat⟩
  have hinv := (run_record_invariant (I := fun log s => Reachable s ∧ TimerInv name log s)
    (fun _ _ i hI hC => ⟨hI.1.step i, step_timerInv hI.1 hI.2 hC⟩) hboot hlive).2
  unfold takesOver at h
  split at h
  · simp only [Bool.and_eq_true, Option.any_eq_true] at h
    obtain ⟨-, seat, hseat, ⟨⟨-, harmed⟩, hoffer⟩, -⟩ := h
    exact hinv seat hseat harmed (by simpa using hoffer)
  · cases h

def ownerExits : List Input :=
  .quiet (.addSeat 0 seat0) :: (copy (0, .regular) [(textPlain, [65])] ++ [gone (0, .regular)])

def timerExpires : Input := .quiet (.nullTimer (0, .regular) true)

/-- A millisecond later the text is restored, and rightly so. -/
theorem ownerExits_replaces_nothing :
    takesOver (run step (boot configNoPasswords (.quiet 0)) ownerExits) timerExpires
        (0, .regular) = true ∧
      (record step (selectionLog (0, .regular)) (boot configNoPasswords (.quiet 0))
        ownerExits).getLast? = some false :=
  ⟨by decide +kernel, nullTimer_replaces_nothing configNoPasswords (.quiet 0) (0, .regular)
    ownerExits timerExpires (by decide +kernel) (by decide +kernel)⟩

/-- A password copied within this millisecond is replaced by the text. -/
theorem password_replaced :
    ∃ config a inputs i name,
      takesOver (run step (boot config a) inputs) i name = true ∧
        (record step (selectionLog name) (boot config a) inputs).getLast? ≠ some false :=
  ⟨configNoPasswords, .quiet 0, ownerExits ++ copy (0, .regular) [(passwordHint, [115])],
    timerExpires, (0, .regular), by decide +kernel, by decide +kernel⟩

end Swayclip
