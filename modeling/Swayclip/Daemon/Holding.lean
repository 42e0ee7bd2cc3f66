import Swayclip.Daemon.Exchange

/-! # Holding requests

`hold_requests` adds its number to a counter of 32 bits, in which a negative number and a sum
that is too large become other numbers. How many requests are held next is compared with what
the numbers add up to.
-/

namespace Swayclip
open Library.Runs

/-- The number of requests to hold, if the request asks for one and is answered with
success. -/
def Exchange.granted (x : Exchange) : Option ℤ :=
  match x.request with
  | .holdRequests (some n) => if x.replies = [.success none] then some n else none
  | _ => none

namespace State

/-- The next `n` requests of the client are kept and executed together when the last of them
comes, and the request after them is executed at once, unless they asked for more to be held.
A number that is not positive holds nothing. -/
def HoldsNext (fd : ℕ) (n : ℤ) (s : State) : Prop :=
  ∀ inputs i req, (∀ j ∈ inputs, Input.Keeps fd j) → i.received fd = some req →
    let arrived := inputs.filterMap (Input.received fd)
    let next := ((run step s inputs).executed fd i).map Exchange.request
    ((arrived.length : ℤ) + 1 < n → next = []) ∧
    ((arrived.length : ℤ) + 1 = n → next = arrived ++ [req]) ∧
    ((arrived.length : ℤ) = max n 0 →
      (record step (State.executed fd) s inputs).filterMap Exchange.granted = [] → next = [req])

/-! ## What the counter becomes -/

section Granted
variable {fd : ℕ} {s : State} {c : Client}

theorem exchange_granted (a : Ambient) (req : Request) (hc : s.findClient fd = some c) :
    (s.exchange a fd req).granted.toList = heldBy req := by
  have hundelayed := findClient_onClient_self (f := Client.undelayed) (fun _ => rfl) hc
  cases req with
  | holdRequests n =>
    cases n with
    | none => rfl
    | some n =>
      by_cases hmax : n > uint32Max
      · have herror := findClient_onClient_self (f := ipcClientSendError
          (ascii "number of requests to hold exceeds UINT32_MAX".toList)) (fun _ => rfl) hundelayed
        have hmessages : (s.exchange a fd (.holdRequests (some n))).messages =
            [.error ((ascii "number of requests to hold exceeds UINT32_MAX".toList).take 255)] := by
          simp only [exchange, requestCallback, serveHoldRequests, if_pos hmax, sendError, herror]
          rfl
        simp only [Exchange.granted, Exchange.replies, hmessages, heldBy, if_pos hmax]
        rfl
      · have hhold := findClient_onClient_self (f := Client.ipcClientAddHold n) (fun _ => rfl)
          hundelayed
        have hsuccess := findClient_onClient_self (f := ipcClientSendSuccess) (fun _ => rfl) hhold
        have hmessages : (s.exchange a fd (.holdRequests (some n))).messages = [.success none] := by
          simp only [exchange, requestCallback, serveHoldRequests, if_neg hmax, sendSuccess,
            hsuccess]
          rfl
        simp only [Exchange.granted, Exchange.replies, hmessages, heldBy, if_neg hmax]
        rfl
  | subscribe | getHistoryLength | getHistory | getData | setClipboard | deleteEntry | pinEntry
  | getCurrent | invalid => rfl

theorem exchanges_granted (ambient : ℕ → Ambient) (reqs : List Request) (i : ℕ)
    (hc : s.findClient fd = some c) :
    (s.exchanges ambient fd i reqs).filterMap Exchange.granted = reqs.flatMap heldBy := by
  induction reqs generalizing s c i with
  | nil => rfl
  | cons req reqs ih =>
    obtain ⟨c', hc', -⟩ := handleRequest_answered (ambient i) req hc
    have hfirst := exchange_granted (ambient i) req hc
    have hrest := ih (i + 1) hc'
    rw [exchanges, List.flatMap_cons, ← hfirst, ← hrest]
    cases hgranted : (s.exchange (ambient i) fd req).granted with
    | none => rw [List.filterMap_cons_none hgranted]; rfl
    | some n => rw [List.filterMap_cons_some hgranted]; rfl

theorem executed_granted (i : Input) :
    (s.executed fd i).filterMap Exchange.granted =
      ((s.executed fd i).map Exchange.request).flatMap heldBy := by
  unfold executed
  split
  · rename_i fd' req client _ hclient
    split
    · rw [exchanges_request]
      exact exchanges_granted _ _ _ (findClient_onClient_self (holdBack_fd client req) hclient)
    · rfl
  · rfl

/-- Without a request nothing is executed. -/
theorem executed_of_not_received {i : Input} (h : i.received fd = none) : s.executed fd i = [] := by
  unfold executed
  split
  · rename_i fd' req client hevent _
    rw [if_neg]
    rintro rfl
    simp [Input.received, hevent] at h
  · rfl

theorem executed_request {i : Input} {req : Request} (h : i.received fd = some req)
    (hc : s.findClient fd = some c) : (s.executed fd i).map Exchange.request = batch c req := by
  have hevent : i.event = .message fd (some req) := by
    unfold Input.received at h
    split at h
    · rename_i fd' req' hevent
      split at h
      · rename_i hfd
        rw [hevent, hfd, Option.some.inj h]
      · cases h
    · cases h
  rw [executed_message hevent hc, exchanges_request]

end Granted

/-! ## One request -/

section Step
variable {fd : ℕ} {s : State} {i : Input} {req : Request} {c c' : Client}

/-- With one request left to hold, or none, the next one is executed. -/
theorem batch_eq (hidle : c.Idle) (req : Request) :
    batch c req = if c.hold.toNat ≤ 1 then c.holdArr ++ [req] else [] := by
  by_cases hheld : c.hold > 0
  · have hpositive : 0 < c.hold.toNat := UInt32.lt_iff_toNat_lt.mp hheld
    have hnext : (c.hold - 1).toNat = c.hold.toNat - 1 :=
      UInt32.toNat_sub_of_le _ _ (UInt32.le_iff_toNat_le.mpr hpositive)
    by_cases hlast : c.hold - 1 = 0
    · have hone : c.hold.toNat ≤ 1 := by
        rw [hlast] at hnext
        simp only [UInt32.toNat_zero] at hnext
        omega
      simp only [batch, if_pos hheld, if_pos hlast, if_pos hone]
    · have hmore : ¬c.hold.toNat ≤ 1 := by
        intro hone
        apply hlast
        apply UInt32.toNat_inj.mp
        rw [hnext, UInt32.toNat_zero]
        omega
      simp only [batch, if_pos hheld, if_neg hlast, if_neg hmore]
  · have hzero : c.hold = 0 := by simpa using hheld
    have hone : c.hold.toNat ≤ 1 := by simp [hzero]
    rw [batch, if_neg hheld, if_pos hone, hidle.holdArr hzero, List.nil_append]

/-- More requests are to come: this one is kept. -/
theorem Progress.keeps (h : Progress fd s i c c') (hidle : c.Idle) (hc : s.findClient fd = some c)
    (hreceived : i.received fd = some req) (hmore : 1 < c.hold.toNat) :
    s.executed fd i = [] ∧ c'.hold.toNat = c.hold.toNat - 1 ∧ c'.holdArr = c.holdArr ++ [req] := by
  have hrequests := executed_request hreceived hc
  rw [batch_eq hidle, if_neg (by omega)] at hrequests
  have hnone : s.executed fd i = [] := List.map_eq_nil_iff.mp hrequests
  refine ⟨hnone, ?_, ?_⟩
  · have hheld : c.hold > 0 := UInt32.lt_iff_toNat_lt.mpr (by simpa using Nat.lt_of_succ_lt hmore)
    have hhold := h.hold
    rw [hreceived, hnone, if_pos ⟨rfl, hheld⟩] at hhold
    have hsum : c'.hold = c.hold - 1 := hhold.trans (UInt32.add_zero _)
    rw [hsum]
    exact UInt32.toNat_sub_of_le _ _ (UInt32.le_iff_toNat_le.mpr (by simpa using hmore.le))
  · have horder := h.order
    rwa [hnone, hreceived] at horder

/-- The last request is there, or none is held: what came is executed, and the counter is what
the requests add up to. -/
theorem Progress.releases (h : Progress fd s i c c') (hidle : c.Idle)
    (hc : s.findClient fd = some c) (hreceived : i.received fd = some req)
    (hlast : c.hold.toNat ≤ 1) :
    (s.executed fd i).map Exchange.request = c.holdArr ++ [req] ∧ c'.holdArr = [] ∧
      c'.hold = UInt32.ofInt (total ((s.executed fd i).filterMap Exchange.granted)) := by
  have hrequests := executed_request hreceived hc
  rw [batch_eq hidle, if_pos hlast] at hrequests
  refine ⟨hrequests, ?_, ?_⟩
  · have horder := h.order
    rw [hrequests, hreceived] at horder
    exact List.append_right_eq_self.mp horder
  · have hstart : (if (i.received fd).isSome ∧ c.hold > 0 then c.hold - 1 else c.hold) = 0 := by
      rw [hreceived]
      split
      · rename_i hheld
        have hpositive : 0 < c.hold.toNat := UInt32.lt_iff_toNat_lt.mp hheld.2
        have hone : c.hold = 1 := UInt32.toNat_inj.mp (Nat.le_antisymm hlast hpositive)
        rw [hone]
        rfl
      · rename_i hheld
        simpa using hheld
    rw [h.hold, hstart, executed_granted, UInt32.zero_add]

theorem Progress.waits (h : Progress fd s i c c') (hreceived : i.received fd = none) :
    c'.hold = c.hold ∧ c'.holdArr = c.holdArr := by
  have hnone := executed_of_not_received (s := s) hreceived
  constructor
  · have hhold := h.hold
    rw [hreceived, hnone] at hhold
    exact hhold.trans (UInt32.add_zero _)
  · have horder := h.order
    rwa [hnone, hreceived, List.map_nil, List.nil_append, Option.toList_none,
      List.append_nil] at horder

end Step

/-! ## A run of requests -/

/-- As long as no more requests come than are to be held, they are kept; when all have come,
nothing is held anymore unless they asked for it. -/
theorem hold_run {s : State} (h : Reachable s) {fd : ℕ} {c : Client} (hc : s.findClient fd = some c)
    (inputs : List Input) (hkeeps : ∀ j ∈ inputs, Input.Keeps fd j)
    (hfew : (inputs.filterMap (Input.received fd)).length ≤ c.hold.toNat) :
    let arrived := inputs.filterMap (Input.received fd)
    ∃ c', (run step s inputs).findClient fd = some c' ∧
      (arrived.length < c.hold.toNat → c'.hold.toNat = c.hold.toNat - arrived.length ∧
        c'.holdArr = c.holdArr ++ arrived) ∧
      (arrived.length = c.hold.toNat →
        (record step (State.executed fd) s inputs).filterMap Exchange.granted = [] →
          c'.hold = 0) := by
  induction inputs generalizing s c with
  | nil =>
    refine ⟨c, hc, fun _ => ⟨rfl, (List.append_nil _).symm⟩, fun hzero _ => ?_⟩
    exact UInt32.toNat_inj.mp hzero.symm
  | cons i inputs ih =>
    have hidle := idle_of_reachable h hc
    have hrest : ∀ j ∈ inputs, Input.Keeps fd j := fun j hj => hkeeps j (List.mem_cons_of_mem _ hj)
    obtain ⟨c₁, hc₁, hprogress⟩ := step_progress hidle hc (hkeeps i List.mem_cons_self)
    rw [received_cons] at hfew ⊢
    simp only [record, List.filterMap_append, List.append_eq_nil_iff, run_cons]
    cases hreceived : i.received fd with
    | none =>
      obtain ⟨hhold, hholdArr⟩ := hprogress.waits hreceived
      have hfew₁ : (inputs.filterMap (Input.received fd)).length ≤ c₁.hold.toNat := by
        rwa [hhold, ← List.nil_append (inputs.filterMap _), ← Option.toList_none, ← hreceived]
      obtain ⟨c', hc', hkept, hdone⟩ := ih (h.step i) hc₁ hrest hfew₁
      rw [hhold, hholdArr] at hkept
      rw [hhold] at hdone
      exact ⟨c', hc', hkept, fun hall hgranted => hdone hall hgranted.2⟩
    | some req =>
      rw [hreceived] at hfew
      have hlength : ([req] ++ inputs.filterMap (Input.received fd)).length =
          (inputs.filterMap (Input.received fd)).length + 1 := rfl
      rw [Option.toList_some, hlength] at hfew ⊢
      by_cases hmore : 1 < c.hold.toNat
      · obtain ⟨hnone, hhold, hholdArr⟩ := hprogress.keeps hidle hc hreceived hmore
        obtain ⟨c', hc', hkept, hdone⟩ := ih (h.step i) hc₁ hrest (by omega)
        rw [hhold, hholdArr] at hkept
        rw [hhold] at hdone
        refine ⟨c', hc', fun hless => ?_, fun hall hgranted => hdone (by omega) hgranted.2⟩
        obtain ⟨hleft, hqueue⟩ := hkept (by omega)
        exact ⟨by omega, by rw [hqueue, List.append_assoc]⟩
      · obtain ⟨-, -, hhold⟩ := hprogress.releases hidle hc hreceived (by omega)
        obtain ⟨c', hc', -, hdone⟩ := ih (h.step i) hc₁ hrest (by omega)
        refine ⟨c', hc', fun hless => by omega, fun hall hgranted => ?_⟩
        have hzero : c₁.hold = 0 := by
          rw [hhold, hgranted.1]
          rfl
        apply hdone _ hgranted.2
        rw [hzero, UInt32.toNat_zero]
        omega

section Next
variable {s : State} {fd : ℕ} {c : Client} {inputs : List Input} {i : Input} {req : Request}

/-- What is executed when the counter has not come to its end before. -/
theorem next_of_less (h : Reachable s) (hc : s.findClient fd = some c) (hempty : c.holdArr = [])
    (hkeeps : ∀ j ∈ inputs, Input.Keeps fd j) (hreceived : i.received fd = some req)
    (hless : (inputs.filterMap (Input.received fd)).length < c.hold.toNat) :
    ((run step s inputs).executed fd i).map Exchange.request =
      if c.hold.toNat - (inputs.filterMap (Input.received fd)).length ≤ 1 then
        inputs.filterMap (Input.received fd) ++ [req] else [] := by
  obtain ⟨c', hc', hkept, -⟩ := hold_run h hc inputs hkeeps hless.le
  obtain ⟨hhold, hholdArr⟩ := hkept hless
  rw [executed_request hreceived hc', batch_eq (idle_of_reachable (h.run inputs) hc'), hhold,
    hholdArr, hempty, List.nil_append]

/-- The request after them is executed alone. -/
theorem next_of_eq (h : Reachable s) (hc : s.findClient fd = some c)
    (hkeeps : ∀ j ∈ inputs, Input.Keeps fd j) (hreceived : i.received fd = some req)
    (hall : (inputs.filterMap (Input.received fd)).length = c.hold.toNat)
    (hgranted : (record step (State.executed fd) s inputs).filterMap Exchange.granted = []) :
    ((run step s inputs).executed fd i).map Exchange.request = [req] := by
  obtain ⟨c', hc', -, hdone⟩ := hold_run h hc inputs hkeeps hall.le
  have hzero := hdone hall hgranted
  have hidle := idle_of_reachable (h.run inputs) hc'
  rw [executed_request hreceived hc', batch_eq hidle, hzero, hidle.holdArr hzero,
    if_pos (by simp), List.nil_append]

end Next

/-- The number is its own remainder, or is not positive and becomes 0 or 1. With 1 the next
request is kept and executed in the same moment. -/
def Fits (n : ℤ) : Prop :=
  n ≤ uint32Max ∧ (0 ≤ n ∨ n % (uint32Max + 1) ≤ 1)

theorem toNat_ofInt (n : ℤ) : ((UInt32.ofInt n).toNat : ℤ) = n % (uint32Max + 1) := by
  have hpositive : 0 ≤ n % 4294967296 := Int.emod_nonneg n (by decide)
  have hless : n % 4294967296 < 4294967296 := Int.emod_lt_of_pos n (by decide)
  have hsmall : (n % 2 ^ 32).toNat < UInt32.size := by
    change (n % 4294967296).toNat < 4294967296
    omega
  rw [UInt32.ofInt, UInt32.toNat_ofNat_of_lt' hsmall]
  change ((n % 4294967296).toNat : ℤ) = n % 4294967296
  exact Int.toNat_of_nonneg hpositive

def requests (fd m : ℕ) : List Input :=
  List.replicate m (.quiet (.message fd (some .getCurrent)))

theorem requests_keeps (fd m : ℕ) : ∀ j ∈ requests fd m, Input.Keeps fd j := by
  intro j hj
  rw [List.eq_of_mem_replicate hj]
  constructor <;> simp [Input.quiet]

theorem received_getCurrent (fd : ℕ) :
    (Input.quiet (.message fd (some .getCurrent))).received fd = some .getCurrent := by
  simp [Input.received, Input.quiet]

theorem requests_received (fd m : ℕ) :
    (requests fd m).filterMap (Input.received fd) = List.replicate m .getCurrent := by
  induction m with
  | zero => rfl
  | succ m ih =>
    rw [requests, List.replicate_succ, received_cons, received_getCurrent, ← requests, ih]
    rfl

/-- With two requests or more to hold, the first one is not executed. -/
theorem first_kept {s : State} (h : Reachable s) {fd : ℕ} {c : Client}
    (hc : s.findClient fd = some c) (hempty : c.holdArr = []) (hmore : 2 ≤ c.hold.toNat) :
    (s.executed fd (.quiet (.message fd (some .getCurrent)))).map Exchange.request = [] := by
  have hnext := @next_of_less s fd c [] _ _ h hc hempty (by simp) (received_getCurrent fd)
    (by simpa using Nat.lt_of_succ_lt hmore)
  rwa [if_neg (by simpa using Nat.not_le_of_lt hmore)] at hnext

/-- The batch that the counter lets go is executed. -/
theorem last_executed {s : State} (h : Reachable s) {fd : ℕ} {c : Client}
    (hc : s.findClient fd = some c) (hempty : c.holdArr = []) :
    ((run step s (requests fd (c.hold.toNat - 1))).executed fd
      (.quiet (.message fd (some .getCurrent)))).map Exchange.request ≠ [] := by
  have hlength : ((requests fd (c.hold.toNat - 1)).filterMap (Input.received fd)).length =
      c.hold.toNat - 1 := by
    rw [requests_received, List.length_replicate]
  by_cases hpositive : 0 < c.hold.toNat
  · rw [next_of_less h hc hempty (requests_keeps fd _) (received_getCurrent fd) (by omega),
      if_pos (by omega)]
    simp
  · have hzero : c.hold.toNat = 0 := by omega
    rw [next_of_eq h hc (requests_keeps fd _) (received_getCurrent fd) (by omega) (by simp [hzero,
      requests, record])]
    simp

/-- The counter holds as many requests as the number says only if the number fits. -/
theorem holdsNext_of_counter_iff {s : State} (h : Reachable s) {fd : ℕ} {c : Client}
    (hc : s.findClient fd = some c) (hempty : c.holdArr = []) {n : ℤ}
    (hhold : c.hold = UInt32.ofInt n) : HoldsNext fd n s ↔ Fits n := by
  have hcounter : (c.hold.toNat : ℤ) = n % 4294967296 := by
    rw [hhold]
    exact toNat_ofInt n
  have hfits : Fits n ↔ n ≤ 4294967295 ∧ (0 ≤ n ∨ n % 4294967296 ≤ 1) := Iff.rfl
  rw [hfits]
  constructor
  · intro hnext
    have hmax : n ≤ 4294967295 := by
      by_contra hlarge
      have hwaits := (hnext (requests fd (c.hold.toNat - 1)) _ _ (requests_keeps fd _)
        (received_getCurrent fd)).1
      rw [requests_received, List.length_replicate] at hwaits
      exact last_executed h hc hempty (hwaits (by omega))
    refine ⟨hmax, ?_⟩
    by_contra hwrong
    have hone := (hnext [] _ _ (by simp) (received_getCurrent fd)).2.2
    have hnow := hone (by simp; omega) rfl
    have hnone := first_kept h hc hempty (by omega)
    rw [run_nil] at hnow
    rw [hnow] at hnone
    cases hnone
  · rintro ⟨hmax, hsmall⟩ inputs i req hkeeps hreceived
    refine ⟨?_, ?_, ?_⟩
    · intro hless
      rw [next_of_less h hc hempty hkeeps hreceived (by omega), if_neg (by omega)]
    · intro hlast
      rw [next_of_less h hc hempty hkeeps hreceived (by omega), if_pos (by omega)]
    · intro hall hgranted
      by_cases hzero : (inputs.filterMap (Input.received fd)).length = c.hold.toNat
      · exact next_of_eq h hc hkeeps hreceived hzero hgranted
      · -- a number below zero that becomes 1
        have hnone : inputs.filterMap (Input.received fd) = [] := by
          apply List.eq_nil_of_length_eq_zero
          omega
        rw [next_of_less h hc hempty hkeeps hreceived (by omega), if_pos (by omega), hnone]
        rfl

/-- The sum of the numbers that the requests of a batch ask to be held with success. -/
def grantedSum (xs : List Exchange) : ℤ := total (xs.filterMap Exchange.granted)

/-- After a message with which requests of the client are executed, as many of its next requests
are held as they asked for exactly when their numbers add up to one that fits. -/
theorem holdsNext_iff_fits {s : State} (h : Reachable s) {fd : ℕ} {c : Client}
    (hc : s.findClient fd = some c) {i : Input} (hexecuted : s.executed fd i ≠ []) :
    HoldsNext fd (grantedSum (s.executed fd i)) (step s i) ↔
      Fits (grantedSum (s.executed fd i)) := by
  have hidle := idle_of_reachable h hc
  cases hreceived : i.received fd with
  | none => exact absurd (executed_of_not_received hreceived) hexecuted
  | some req =>
    have hlast : c.hold.toNat ≤ 1 := by
      by_contra hmore
      have hrequests := executed_request hreceived hc
      rw [batch_eq hidle, if_neg hmore] at hrequests
      exact hexecuted (List.map_eq_nil_iff.mp hrequests)
    have hkeeps : i.Keeps fd := by
      constructor
      · intro config hevent
        simp [Input.received, hevent] at hreceived
      · intro hevent
        simp [Input.received, hevent] at hreceived
    obtain ⟨c', hc', hprogress⟩ := step_progress hidle hc hkeeps
    obtain ⟨-, hempty, hhold⟩ := hprogress.releases hidle hc hreceived hlast
    exact holdsNext_of_counter_iff (h.step i) hc' hempty hhold

def withClient : State := step (firstSession configInit) (.quiet (.connect 5))

theorem withClient_reachable : Reachable withClient := (firstSession_reachable configInit).step _

def askHold (n : ℤ) : Input := .quiet (.message 5 (some (.holdRequests (some n))))

theorem two_held : HoldsNext 5 2 (step withClient (askHold 2)) := by
  have hclient : withClient.findClient 5 = some (ipcAddClient 5) := rfl
  have hsum : grantedSum (withClient.executed 5 (askHold 2)) = 2 := by decide
  have hexecuted : withClient.executed 5 (askHold 2) ≠ [] := by
    intro hnone
    rw [hnone] at hsum
    exact absurd hsum (by decide)
  have hiff := holdsNext_iff_fits withClient_reachable hclient hexecuted
  rw [hsum] at hiff
  exact hiff.mpr ⟨by decide, Or.inl (by decide)⟩

/-- With a negative number, which is granted, the next request is not executed. -/
theorem negative_not_held : grantedSum (withClient.executed 5 (askHold (-1))) = -1 ∧
    ¬HoldsNext 5 (-1) (step withClient (askHold (-1))) := by
  refine ⟨by decide, ?_⟩
  intro hnext
  have hnow := (hnext [] (.quiet (.message 5 (some .getCurrent))) .getCurrent (by simp) rfl).2.2
    (by decide) rfl
  exact absurd (congrArg List.length hnow) (by decide)

end State

end Swayclip
