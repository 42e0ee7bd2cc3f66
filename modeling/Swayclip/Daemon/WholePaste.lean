import Swayclip.Daemon.Paste

/-! # A paste that runs to its end

A context whose data stays where it is, and whose receiver neither hangs up nor fails, is on its
way through the data until all of it has been written, and is freed once.
-/

namespace Swayclip
open Library.Runs

/-- How many of the calls of `write` get bytes written before one of them blocks. -/
def taken : List Written → ℕ
  | [] => 0
  | .wrote _ :: outs => taken outs + 1
  | .eagain :: _ => 0
  | _ :: outs => taken outs

/-- The context that a turn leaves. -/
def Turn.context : Turn → SendContext
  | .again ctx => ctx
  | .blocked ctx => ctx
  | .ended ctx _ => ctx

namespace SendContext

/-- What each call of `write` in the loop has left to write. -/
def remainders (s : State) (generation : ℕ) (stale : Bytes) : List Written → SendContext → List ℕ
  | [], ctx =>
    match ctx.fill s.db.tables with
    | .error _ => []
    | .ok filled => [filled.remaining]
  | out :: outs, ctx =>
    match ctx.fill s.db.tables with
    | .error _ => []
    | .ok filled =>
      filled.remaining ::
        match ctx.turn s generation stale out with
        | .again ctx => remainders s generation stale outs ctx
        | _ => []

section Streams
variable {s : State} {generation : ℕ} {ctx : SendContext}

/-- How far a turn gets. -/
def Turn.Moves (out : Written) (ctx : SendContext) : Turn → Prop
  | .again ctx' => ctx'.left + taken [out] ≤ ctx.left
  | .blocked ctx' => ctx'.left = ctx.left ∧ 0 < ctx.left
  | .ended .. => True

theorem turn_moves (h : Streams s generation ctx) (stale : Bytes) (out : Written) :
    Turn.Moves out ctx (ctx.turn s generation stale out) := by
  have hfine := turn_fine h stale out
  rcases h.fill with ⟨hfill, -⟩ | ⟨ctx', hfill, h', hsame, hsent, hmore⟩
  · simp only [turn, hfill, Turn.Moves]
  · have hleft : ctx'.left = ctx.left := by rw [left, left, hsame.requested, hsent]
    have hrest := h'.remaining_le
    simp only [turn, hfill] at hfine ⊢
    cases out with
    | eintr => exact hleft.le
    | eagain => exact ⟨hleft, by omega⟩
    | error => trivial
    | wrote n =>
      dsimp only at hfine ⊢
      split
      · trivial
      · rename_i hgoes
        rw [if_neg hgoes] at hfine
        exact hfine.2.2.2 n rfl

/-- What a call of the callback leads to. -/
structure Turn.Stops (s : State) (generation : ℕ) (outs : List Written) (ctx ctx' : SendContext) :
    Prop where
  streams : Streams s generation ctx'
  same : Same ctx ctx'
  moves : ctx'.left + taken outs ≤ ctx.left
  more : 0 < ctx'.left

theorem writeLoop_stops (h : Streams s generation ctx) (stale : Bytes) {outs : List Written}
    (houts : ∀ out ∈ outs, out ≠ .error) :
    (∃ ctx', ctx.writeLoop s generation stale outs = .blocked ctx' ∧
      Turn.Stops s generation outs ctx ctx') ∨
    ∃ ctx', ctx.writeLoop s generation stale outs = .ended ctx' .done ∧ Same ctx ctx' ∧
      ctx'.sent = ctx.requested := by
  induction outs generalizing ctx with
  | nil =>
    have hfine := turn_fine h stale .eagain
    have hmoves := turn_moves h stale .eagain
    rw [writeLoop]
    generalize ctx.turn s generation stale .eagain = result at hfine hmoves ⊢
    cases result with
    | again ctx' => exact absurd rfl hfine.2.2.1
    | blocked ctx' =>
      obtain ⟨hleft, hmore⟩ := hmoves
      exact Or.inl ⟨ctx', rfl, hfine.1, hfine.2.1, hleft.le, by omega⟩
    | ended ctx' how =>
      obtain ⟨rfl, hsent⟩ := hfine.done (by simp)
      exact Or.inr ⟨ctx', rfl, hfine.1, hsent⟩
  | cons out outs ih =>
    have hfine := turn_fine h stale out
    have hmoves := turn_moves h stale out
    rw [writeLoop]
    generalize ctx.turn s generation stale out = result at hfine hmoves ⊢
    cases result with
    | again ctx' =>
      have hcount : taken (out :: outs) = taken [out] + taken outs := by
        cases out with
        | eagain => exact absurd rfl hfine.2.2.1
        | _ => simp [taken, Nat.add_comm]
      have hmoves : ctx'.left + taken [out] ≤ ctx.left := hmoves
      rcases ih hfine.1 fun o ho => houts o (List.mem_cons_of_mem _ ho) with
        ⟨ctx'', hblocked, hstops⟩ | ⟨ctx'', hended, hsame, hsent⟩
      · refine Or.inl ⟨ctx'', hblocked, hstops.streams, hfine.2.1.trans hstops.same, ?_,
          hstops.more⟩
        have := hstops.moves
        omega
      · exact Or.inr ⟨ctx'', hended, hfine.2.1.trans hsame, hsent.trans hfine.2.1.requested⟩
    | blocked ctx' =>
      obtain ⟨hleft, hmore⟩ := hmoves
      obtain rfl : out = .eagain := hfine.2.2.1
      exact Or.inl ⟨ctx', rfl, hfine.1, hfine.2.1, hleft.le, by omega⟩
    | ended ctx' how =>
      obtain ⟨rfl, hsent⟩ := hfine.done (houts out List.mem_cons_self)
      exact Or.inr ⟨ctx', rfl, hfine.1, hsent⟩

/-- `write` is never called for nothing. -/
theorem remainders_pos (h : Streams s generation ctx) (stale : Bytes) (outs : List Written) :
    ∀ n ∈ ctx.remainders s generation stale outs, 0 < n := by
  induction outs generalizing ctx with
  | nil =>
    rw [remainders]
    rcases h.fill with ⟨hfill, -⟩ | ⟨ctx', hfill, -, -, -, hmore⟩
    · simp [hfill]
    · simpa [hfill] using hmore
  | cons out outs ih =>
    have hfine := turn_fine h stale out
    rw [remainders]
    rcases h.fill with ⟨hfill, -⟩ | ⟨ctx', hfill, -, -, -, hmore⟩
    · simp [hfill]
    · rw [hfill]
      generalize ctx.turn s generation stale out = result at hfine ⊢
      dsimp only
      refine List.forall_mem_cons.mpr ⟨hmore, ?_⟩
      cases result with
      | again ctx'' => exact ih hfine.1
      | blocked | ended => simp

end Streams

/-! ### The descriptor -/

theorem fill_fd {t : Tables} {ctx ctx' : SendContext} (h : ctx.fill t = .ok ctx') :
    ctx'.fd = ctx.fd := by
  unfold fill at h
  split at h
  · cases h
    rfl
  · split at h
    · dsimp only at h
      split at h
      · cases h
      · split at h <;> cases h
        rfl
    · cases h
      rfl

variable (s : State) (generation : ℕ) (stale : Bytes)

theorem turn_fd (out : Written) (ctx : SendContext) :
    (ctx.turn s generation stale out).context.fd = ctx.fd := by
  unfold turn
  cases hfill : ctx.fill s.db.tables with
  | error how => rfl
  | ok ctx' =>
    have hfd := fill_fd hfill
    cases out with
    | wrote n =>
      dsimp only
      split <;> exact hfd
    | _ => exact hfd

/-- A call of the callback leaves its context the descriptor. -/
theorem writeLoop_fd (outs : List Written) (ctx : SendContext) :
    (ctx.writeLoop s generation stale outs).context.fd = ctx.fd := by
  induction outs generalizing ctx with
  | nil => exact turn_fd ..
  | cons out outs ih =>
    have hturn := turn_fd s generation stale out ctx
    rw [writeLoop]
    generalize ctx.turn s generation stale out = result at hturn ⊢
    cases result with
    | again ctx' => exact (ih ctx').trans hturn
    | blocked ctx' => exact hturn
    | ended ctx' how => exact hturn

theorem expire_fd (t : Tables) (ctx : SendContext) : (ctx.expire t).fd = ctx.fd := by
  unfold expire
  split <;> rfl

theorem expire_requested (t : Tables) (ctx : SendContext) :
    (ctx.expire t).requested = ctx.requested := by
  unfold expire
  split <;> rfl

theorem expire_sent (t : Tables) (ctx : SendContext) : (ctx.expire t).sent = ctx.sent := by
  unfold expire
  split <;> rfl

end SendContext

namespace Pasting

/-- The context that writes to the descriptor. -/
def findContext (fd : ℕ) (x : Pasting) : Option SendContext :=
  x.contexts.find? fun ctx => ctx.fd = fd

/-- How contexts for the descriptor have been freed. -/
def ends (fd : ℕ) (x : Pasting) : List (SendContext × SendEnd) :=
  x.ended.filter fun p => p.1.fd = fd

/-- The data behind the context stays where it is, its receiver neither hangs up nor fails, and its
descriptor is not given to another one. -/
def Keeps (fd : ℕ) (x : Pasting) : Wakeup → Prop
  | .event i => i.event.isRestart = false ∧ ∀ ctx ∈ x.findContext fd,
      ctx.Spared (clearsTransient x.state i.event) x.state.db.tables
        (Swayclip.step x.state i).db.tables
  | .send _ _ other => other ≠ fd
  | .writable other hangup outs _ => other = fd → hangup = false ∧ ∀ out ∈ outs, out ≠ .error

/-- What the calls of `write` for the descriptor have left to write. -/
def remainders (fd : ℕ) (x : Pasting) : Wakeup → List ℕ
  | .writable other _ outs stale =>
    if other = fd then
      match x.findContext fd with
      | none => []
      | some ctx => ctx.remainders x.state x.generation stale outs
    else []
  | _ => []

/-- How many of the calls of `write` for the descriptor get bytes written. -/
def takenBy (fd : ℕ) : List Wakeup → ℕ
  | [] => 0
  | .writable other _ outs _ :: ws => (if other = fd then taken outs else 0) + takenBy fd ws
  | _ :: ws => takenBy fd ws

/-- The context is on its way through the content, with at least `n` bytes written. -/
structure Underway (fd : ℕ) (content : Bytes) (before : List (SendContext × SendEnd)) (n : ℕ)
    (x : Pasting) (ctx : SendContext) : Prop where
  found : x.findContext fd = some ctx
  streams : ctx.Streams x.state x.generation
  requested : ctx.requested = content
  ends : x.ends fd = before
  sent : n ≤ ctx.sent.length
  more : 0 < ctx.left

/-- The content has been written and the context has been freed. -/
structure Finished (fd : ℕ) (content : Bytes) (before : List (SendContext × SendEnd))
    (x : Pasting) : Prop where
  freed : x.findContext fd = none
  ended : ∃ ctx, x.ends fd = before ++ [(ctx, .done)] ∧ ctx.sent = content

section Step
variable {fd : ℕ} {content : Bytes} {before : List (SendContext × SendEnd)} {n : ℕ} {x : Pasting}
variable {ctx : SendContext}

theorem findContext_fd (h : x.findContext fd = some ctx) : ctx.fd = fd := by
  simpa using List.find?_some h

theorem findContext_sendContextFree (fd : ℕ) (ctx : SendContext) (how : SendEnd) (x : Pasting) :
    (x.sendContextFree ctx how).findContext fd =
      if ctx.fd = fd then none else x.findContext fd := by
  rw [findContext, sendContextFree, List.find?_filter]
  split
  · rename_i hsame
    rw [List.find?_eq_none]
    simp [hsame]
  · rename_i hne
    rw [findContext]
    congr 1
    funext other
    by_cases hother : other.fd = fd <;> simp [hother, Ne.symm hne]

theorem ends_sendContextFree (fd : ℕ) (ctx : SendContext) (how : SendEnd) (x : Pasting) :
    (x.sendContextFree ctx how).ends fd =
      x.ends fd ++ if ctx.fd = fd then [(ctx, how)] else [] := by
  rw [Pasting.ends, sendContextFree, List.filter_append, Pasting.ends]
  congr 1
  by_cases hsame : ctx.fd = fd <;> simp [hsame]

theorem findContext_putContext (fd : ℕ) (ctx : SendContext) (x : Pasting) :
    (x.putContext ctx).findContext fd =
      if ctx.fd = fd then (x.findContext fd).map (fun _ => ctx) else x.findContext fd := by
  rw [findContext, putContext, findContext]
  generalize x.contexts = contexts
  induction contexts with
  | nil => simp
  | cons other contexts ih =>
    rw [List.map_cons, List.find?_cons, List.find?_cons, ih]
    by_cases hsame : ctx.fd = fd
    · subst hsame
      by_cases hother : other.fd = ctx.fd <;> simp [hother]
    · by_cases hother : other.fd = ctx.fd
      · simp [hother, hsame]
      · by_cases hfd : other.fd = fd <;> simp [hother, hfd, hsame, Ne.symm hsame]

theorem findContext_expire (fd : ℕ) (t : Tables) (contexts : List SendContext) :
    (contexts.map (SendContext.expire t)).find? (fun ctx => ctx.fd = fd) =
      (contexts.find? fun ctx => ctx.fd = fd).map (SendContext.expire t) := by
  rw [List.find?_map]
  congr 2
  funext ctx
  rw [Function.comp_apply, SendContext.expire_fd]

theorem writeCallback_session (ctx : SendContext) (hangup : Bool) (outs : List Written)
    (stale : Bytes) (x : Pasting) :
    (x.writeCallback hangup outs stale ctx).state = x.state ∧
      (x.writeCallback hangup outs stale ctx).generation = x.generation := by
  rw [writeCallback]
  split
  · exact ⟨rfl, rfl⟩
  · dsimp only
    cases ctx.writeLoop x.state x.generation stale outs <;> exact ⟨rfl, rfl⟩

/-- The other descriptors stay as they are. -/
theorem writeCallback_others {other : SendContext} (hne : other.fd ≠ fd) (hangup : Bool)
    (outs : List Written) (stale : Bytes) :
    (x.writeCallback hangup outs stale other).findContext fd = x.findContext fd ∧
      (x.writeCallback hangup outs stale other).ends fd = x.ends fd := by
  have hfd := SendContext.writeLoop_fd x.state x.generation stale outs other
  rw [writeCallback]
  split
  · rw [findContext_sendContextFree, ends_sendContextFree, if_neg hne, if_neg hne, List.append_nil]
    exact ⟨rfl, rfl⟩
  · dsimp only
    generalize other.writeLoop x.state x.generation stale outs = result at hfd ⊢
    cases result with
    | ended ctx' how =>
      have hne' : ctx'.fd ≠ fd := fun h => hne (hfd.symm.trans h)
      dsimp only
      rw [findContext_sendContextFree, ends_sendContextFree, if_neg hne', if_neg hne',
        List.append_nil]
      exact ⟨rfl, rfl⟩
    | blocked ctx' | again ctx' =>
      have hne' : ctx'.fd ≠ fd := fun h => hne (hfd.symm.trans h)
      dsimp only
      rw [findContext_putContext, if_neg hne']
      exact ⟨rfl, rfl⟩

/-- An event leaves to the context what it still has to read. -/
theorem Underway.event (h : Underway fd content before n x ctx) {i : Input}
    (hkeeps : Keeps fd x (.event i)) :
    ∃ ctx', Underway fd content before n (x.step (.event i)) ctx' := by
  obtain ⟨hrestart, hspared⟩ := hkeeps
  have hsession : ∀ config, i.event ≠ .restart config := by
    intro config hevent
    rw [isRestart_iff.mpr ⟨config, hevent⟩] at hrestart
    cases hrestart
  have hleaves := hspared ctx h.found
  have hfound := findContext_expire fd (Swayclip.step x.state i).db.tables x.contexts
  rw [show x.contexts.find? _ = some ctx from h.found, Option.map_some] at hfound
  have hmore : 0 < (ctx.expire (Swayclip.step x.state i).db.tables).left := by
    rw [SendContext.left, SendContext.expire_requested, SendContext.expire_sent]
    exact h.more
  refine ⟨ctx.expire (Swayclip.step x.state i).db.tables, ?_⟩
  change Underway fd content before n (x.handle i) _
  rw [handle_eq hsession]
  split
  · rename_i hclears
    refine ⟨hfound, ?_, (SendContext.expire_requested ..).trans h.requested, h.ends, ?_, hmore⟩
    · exact spared_streams h.streams hsession (by rw [hclears]; exact fun h => by cases h) hleaves
    · rw [SendContext.expire_sent]
      exact h.sent
  · refine ⟨hfound, ?_, (SendContext.expire_requested ..).trans h.requested, h.ends, ?_, hmore⟩
    · exact spared_streams h.streams hsession (fun _ => rfl) hleaves
    · rw [SendContext.expire_sent]
      exact h.sent

theorem findContext_wsignalSend {setup : Setup} {mimeType : CString} {other : ℕ}
    (hne : other ≠ fd) (x : Pasting) :
    (x.wsignalSend setup mimeType other).findContext fd = x.findContext fd := by
  rw [wsignalSend]
  split
  · rfl
  · split
    · rfl
    · rename_i ctx' haccept
      have hfd : ctx'.fd = other := by cases accept_accepted haccept <;> rfl
      rw [findContext, List.find?_cons_of_neg (by simpa [hfd] using hne), findContext]

theorem Underway.send (h : Underway fd content before n x ctx) (setup : Setup)
    (mimeType : CString) {other : ℕ} (hne : other ≠ fd) :
    Underway fd content before n (x.step (.send setup mimeType other)) ctx := by
  have hsame : (x.wsignalSend setup mimeType other).state = x.state ∧
      (x.wsignalSend setup mimeType other).generation = x.generation ∧
      (x.wsignalSend setup mimeType other).ended = x.ended := by
    rw [wsignalSend]
    split
    · exact ⟨rfl, rfl, rfl⟩
    · split <;> exact ⟨rfl, rfl, rfl⟩
  obtain ⟨hstate, hgeneration, hended⟩ := hsame
  refine ⟨(findContext_wsignalSend hne x).trans h.found, ?_, h.requested, ?_, h.sent, h.more⟩
  · change ctx.Streams (x.wsignalSend setup mimeType other).state
      (x.wsignalSend setup mimeType other).generation
    rw [hstate, hgeneration]
    exact h.streams
  · rw [← h.ends, Pasting.ends, Pasting.ends]
    exact congrArg _ hended

/-- The receiver takes some bytes, or all that are left. -/
theorem Underway.writable (h : Underway fd content before n x ctx) {outs : List Written}
    (houts : ∀ out ∈ outs, out ≠ .error) (stale : Bytes) :
    (∃ ctx', Underway fd content before (n + taken outs) (x.step (.writable fd false outs stale))
      ctx') ∨ Finished fd content before (x.step (.writable fd false outs stale)) := by
  have hfd := findContext_fd h.found
  have hstep : x.step (.writable fd false outs stale) = x.writeCallback false outs stale ctx := by
    simp only [step, show x.contexts.find? (fun ctx => ctx.fd = fd) = some ctx from h.found]
  rw [hstep, writeCallback, if_neg (by simp)]
  rcases SendContext.writeLoop_stops h.streams stale houts with
    ⟨ctx', hblocked, hstops⟩ | ⟨ctx', hended, hsame, hsent⟩
  · left
    have hfd' : ctx'.fd = fd := hstops.same.fd.trans hfd
    have hleft := hstops.moves
    have hmore := hstops.more
    have hsent := h.sent
    have hlength := h.streams.sent_isPrefix.length_le
    rw [SendContext.left, SendContext.left, hstops.same.requested] at hleft
    rw [SendContext.left, hstops.same.requested] at hmore
    rw [hblocked]
    refine ⟨ctx', ?_, hstops.streams, hstops.same.requested.trans h.requested, h.ends, ?_,
      hstops.more⟩
    · dsimp only
      rw [findContext_putContext, if_pos hfd']
      change (x.findContext fd).map _ = _
      rw [h.found, Option.map_some]
    · omega
  · right
    have hfd' : ctx'.fd = fd := hsame.fd.trans hfd
    rw [hended]
    constructor
    · dsimp only
      rw [findContext_sendContextFree, if_pos hfd']
    · refine ⟨ctx', ?_, hsent.trans h.requested⟩
      dsimp only
      rw [ends_sendContextFree, if_pos hfd', ← h.ends]
      rfl

theorem Underway.step (h : Underway fd content before n x ctx) {w : Wakeup}
    (hkeeps : Keeps fd x w) :
    (∃ ctx', Underway fd content before (n + takenBy fd [w]) (x.step w) ctx') ∨
      Finished fd content before (x.step w) := by
  cases w with
  | event i => exact Or.inl (h.event hkeeps)
  | send setup mimeType other => exact Or.inl ⟨ctx, h.send setup mimeType hkeeps⟩
  | writable other hangup outs stale =>
    by_cases hsame : other = fd
    · subst hsame
      obtain ⟨rfl, houts⟩ := hkeeps rfl
      simpa [takenBy] using h.writable houts stale
    · left
      rw [takenBy, takenBy, if_neg hsame]
      simp only [Pasting.step]
      split
      · exact ⟨ctx, h⟩
      · rename_i ctx' hctx'
        have hfd : ctx'.fd ≠ fd := by
          rw [show ctx'.fd = other by simpa using List.find?_some hctx']
          exact hsame
        obtain ⟨hfound, hends⟩ := writeCallback_others (x := x) hfd hangup outs stale
        obtain ⟨hstate, hgeneration⟩ := writeCallback_session ctx' hangup outs stale x
        refine ⟨ctx, hfound.trans h.found, ?_, h.requested, hends.trans h.ends, h.sent, h.more⟩
        rw [hstate, hgeneration]
        exact h.streams

/-- Nothing more happens to a descriptor that has been closed. -/
theorem Finished.step (h : Finished fd content before x) {w : Wakeup} (hkeeps : Keeps fd x w) :
    Finished fd content before (x.step w) := by
  have hleaves : ∀ x' : Pasting, x'.findContext fd = x.findContext fd → x'.ends fd = x.ends fd →
      Finished fd content before x' := by
    intro x' hfound hends
    refine ⟨hfound.trans h.freed, ?_⟩
    rw [hends]
    exact h.ended
  cases w with
  | event i =>
    have hsession : ∀ config, i.event ≠ .restart config := by
      intro config hevent
      have hrestart := hkeeps.1
      rw [isRestart_iff.mpr ⟨config, hevent⟩] at hrestart
      cases hrestart
    have hfound := findContext_expire fd (Swayclip.step x.state i).db.tables x.contexts
    rw [show x.contexts.find? _ = none from h.freed, Option.map_none, ← h.freed] at hfound
    change Finished fd content before (x.handle i)
    rw [handle_eq hsession]
    split <;> exact hleaves _ hfound rfl
  | send setup mimeType other =>
    refine hleaves _ (findContext_wsignalSend hkeeps x) ?_
    simp only [Pasting.step, wsignalSend]
    split
    · rfl
    · split <;> rfl
  | writable other hangup outs stale =>
    simp only [Pasting.step]
    split
    · exact h
    · rename_i ctx' hctx'
      have hfd : ctx'.fd ≠ fd := by
        intro hsame
        have hother : ctx'.fd = other := by simpa using List.find?_some hctx'
        have hfound : x.findContext fd = some ctx' := by
          rw [findContext, ← hsame, hother]
          exact hctx'
        rw [h.freed] at hfound
        cases hfound
      obtain ⟨hfound, hends⟩ := writeCallback_others (x := x) hfd hangup outs stale
      exact hleaves _ hfound hends

/-- `write` is called for bytes that are there. -/
theorem Underway.remainders_pos (h : Underway fd content before n x ctx) (w : Wakeup) :
    ∀ k ∈ x.remainders fd w, 0 < k := by
  cases w with
  | writable other hangup outs stale =>
    simp only [remainders, h.found]
    split
    · exact SendContext.remainders_pos h.streams stale outs
    · simp
  | _ => simp [remainders]

theorem Finished.remainders (h : Finished fd content before x) (w : Wakeup) :
    x.remainders fd w = [] := by
  cases w with
  | writable => simp [Pasting.remainders, h.freed]
  | _ => rfl

theorem takenBy_cons (fd : ℕ) (w : Wakeup) (ws : List Wakeup) :
    takenBy fd (w :: ws) = takenBy fd [w] + takenBy fd ws := by
  cases w <;> simp [takenBy]

theorem Underway.run {ws : List Wakeup} (h : Underway fd content before n x ctx)
    (hkept : Meets Pasting.step (Keeps fd) x ws) :
    Meets Pasting.step (fun x w => ∀ k ∈ x.remainders fd w, 0 < k) x ws ∧
      ((∃ ctx', Underway fd content before (n + takenBy fd ws) (run Pasting.step x ws) ctx') ∨
        Finished fd content before (run Pasting.step x ws)) := by
  induction ws generalizing n x ctx with
  | nil => exact ⟨trivial, Or.inl ⟨ctx, h⟩⟩
  | cons w ws ih =>
    have hcalls := h.remainders_pos w
    rcases h.step hkept.1 with ⟨ctx', hnext⟩ | hdone
    · obtain ⟨hmore, hends⟩ := ih hnext hkept.2
      rw [takenBy_cons, ← Nat.add_assoc]
      exact ⟨⟨hcalls, hmore⟩, hends⟩
    · have hstep : ∀ y v, Finished fd content before y → Keeps fd y v →
          Finished fd content before (y.step v) := fun _ _ hy hv => hy.step hv
      constructor
      · refine ⟨hcalls, (hkept.2.and_invariant hstep hdone).imp fun y v hy => ?_⟩
        simp [hy.1.remainders v]
      · rw [run_cons]
        exact Or.inr (run_invariant hstep hdone hkept.2)

theorem accept_underway {setup : Setup} {mimeType : CString} (hfree : x.findContext fd = none)
    (haccept : x.accept setup mimeType fd = some ctx) (hcontent : ctx.requested ≠ []) :
    Underway fd ctx.requested (x.ends fd) 0 (x.wsignalSend setup mimeType fd) ctx := by
  have hunused : x.contexts.any (fun other => other.fd = fd) = false := by
    rw [List.any_eq_false]
    intro other hother
    exact List.find?_eq_none.mp hfree other hother
  have hfd : ctx.fd = fd ∧ ctx.sent = [] := by
    cases accept_accepted haccept <;> exact ⟨rfl, rfl⟩
  have hsend : x.wsignalSend setup mimeType fd = { x with contexts := ctx :: x.contexts } := by
    rw [wsignalSend, hunused, if_neg (by simp), haccept]
  rw [hsend]
  refine ⟨?_, accept_streams haccept, rfl, rfl, Nat.zero_le _, ?_⟩
  · exact List.find?_cons_of_pos (by simpa using hfd.1)
  · rw [SendContext.left, hfd.2]
    exact List.length_pos_iff.mpr hcontent

end Step

/-- What an accepted request asks for is written byte by byte, and `write` is called for bytes that
are there. As long as not all is written nothing has been freed, and the bytes that have been taken
are the first of the content; then the context is freed, once. -/
theorem paste_whole {setup : Setup} {mimeType : CString} {fd : ℕ} {x : Pasting}
    {ctx : SendContext} (hfree : x.findContext fd = none)
    (haccept : x.accept setup mimeType fd = some ctx) (hcontent : ctx.requested ≠ [])
    {ws : List Wakeup} (hkept : Meets step (Keeps fd) (x.wsignalSend setup mimeType fd) ws) :
    let x' := run step (x.wsignalSend setup mimeType fd) ws
    x.state.wsignalSend setup.getData mimeType = some ctx.requested ∧
      Meets step (fun x w => ∀ k ∈ x.remainders fd w, 0 < k) (x.wsignalSend setup mimeType fd) ws ∧
      ((∃ ctx', x'.findContext fd = some ctx' ∧ x'.ends fd = x.ends fd ∧
          ctx'.sent <+: ctx.requested ∧ takenBy fd ws ≤ ctx'.sent.length ∧
          ctx'.sent.length < ctx.requested.length) ∨
        (x'.findContext fd = none ∧ ∃ ctx', x'.ends fd = x.ends fd ++ [(ctx', .done)] ∧
          ctx'.sent = ctx.requested)) := by
  obtain ⟨hcalls, hends⟩ := (accept_underway hfree haccept hcontent).run hkept
  refine ⟨accept_requested haccept, hcalls, ?_⟩
  rcases hends with ⟨ctx', hway⟩ | hdone
  · left
    have hmore := hway.more
    rw [SendContext.left, hway.requested] at hmore
    have hbegins := hway.streams.sent_isPrefix
    rw [hway.requested] at hbegins
    have hsent := hway.sent
    rw [Nat.zero_add] at hsent
    exact ⟨ctx', hway.found, hway.ends, hbegins, hsent, by omega⟩
  · exact Or.inr ⟨hdone.freed, hdone.ended⟩

/-- A password has been copied. -/
def passwordCopied : Pasting :=
  run step (start configTransient (.quiet 0))
    (.event (.quiet (.addSeat 0 seat0)) :: (copy (0, .regular) password).map .event)

/-- One byte is taken before `write` blocks, and the other one after an interruption. -/
def takenInTwo : List Wakeup :=
  [.writable 7 false [.wrote 0, .eagain] [], .writable 7 false [.eintr, .wrote 8] []]

theorem takenInTwo_whole :
    let x' := run step (passwordCopied.wsignalSend allSetUp textPlain 7) takenInTwo
    x'.findContext 7 = none ∧ ∃ ctx, x'.ends 7 = passwordCopied.ends 7 ++ [(ctx, .done)] ∧
      ctx.sent = [65, 66] := by
  obtain ⟨ctx, haccept⟩ : ∃ ctx, passwordCopied.accept allSetUp textPlain 7 = some ctx :=
    Option.isSome_iff_exists.mp (by decide +kernel)
  have hrequested : ctx.requested = [65, 66] := by
    have hsame : (passwordCopied.accept allSetUp textPlain 7).map SendContext.requested =
        some [65, 66] := by decide +kernel
    rw [haccept] at hsame
    exact Option.some.inj hsame
  have hfree : passwordCopied.findContext 7 = none := by
    rw [← Option.isNone_iff_eq_none]
    decide +kernel
  have hkept : Meets step (Keeps 7) (passwordCopied.wsignalSend allSetUp textPlain 7)
      takenInTwo := ⟨fun _ => ⟨rfl, by simp⟩, fun _ => ⟨rfl, by simp⟩, trivial⟩
  obtain ⟨-, -, hends⟩ := paste_whole hfree haccept (by simp [hrequested]) hkept
  rw [hrequested] at hends
  rcases hends with ⟨ctx', -, -, -, htaken, hless⟩ | hdone
  · exact absurd (htaken.trans_lt hless) (by decide)
  · exact hdone

end Pasting

end Swayclip
