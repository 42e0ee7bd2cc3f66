import Swayclip.Daemon.CurrentEntry
import Swayclip.Daemon.Sending
import Swayclip.Wayland.Offer

/-! # A paste gets what was asked for

While the data behind a context stays where it is, what has been written, what waits in the
buffer and what has not been read yet make up the data that was requested. The transient data
must not be cleared under a context, and a row must not be deleted before all of it is read.
-/

namespace Swayclip
open Library.Runs Library.Ledger Library.Streaming Tables

namespace SendContext

/-- The data behind a context is what was requested, as far as it has to be read again. -/
inductive Backed (s : State) (generation : ℕ) (ctx : SendContext) : Prop
  | blob {dataId : Digest} {expired : Bool} (horigin : ctx.origin = .blob dataId expired)
      (hsize : ctx.sz = ctx.requested.length) (hoff : ctx.off ≤ ctx.sz)
      (hread : ctx.off < ctx.sz →
        expired = false ∧ s.db.tables.dataOf dataId = some ctx.requested)
  | transient {mimeType : CString} (horigin : ctx.origin = .transient generation mimeType)
      (hdata : (s.transient.find? (fun e => e.1 = mimeType)).map Prod.snd = some ctx.requested)
      (hmore : 0 < ctx.remaining)

def unread (ctx : SendContext) : Bytes :=
  match ctx.origin with
  | .blob .. => ctx.requested.drop ctx.off
  | .transient .. => []

/-- The context is on its way through the requested data. -/
structure Streams (s : State) (generation : ℕ) (ctx : SendContext) : Prop where
  backed : Backed s generation ctx
  inside : ctx.ptr + ctx.remaining ≤ (ctx.memory s generation []).length
  flight : InFlight ctx.requested ctx.sent
    (window (ctx.memory s generation []) ctx.ptr ctx.remaining) ctx.unread

section Streams
variable {s : State} {generation : ℕ} {ctx : SendContext}

/-- Nothing stale is found behind such a context. -/
theorem Backed.memory (h : Backed s generation ctx) (stale : Bytes) :
    ctx.memory s generation stale = ctx.memory s generation [] := by
  cases h with
  | blob horigin => simp only [SendContext.memory, horigin]
  | transient horigin hdata =>
    simp only [SendContext.memory, horigin, if_true, hdata, Option.getD_some]

def left (ctx : SendContext) : ℕ := ctx.requested.length - ctx.sent.length

structure Same (ctx ctx' : SendContext) : Prop where
  fd : ctx'.fd = ctx.fd
  requested : ctx'.requested = ctx.requested
  accesses : ctx'.accesses = ctx.accesses

theorem Same.refl (ctx : SendContext) : Same ctx ctx := ⟨rfl, rfl, rfl⟩

theorem Same.trans {ctx' ctx'' : SendContext} (h : Same ctx ctx') (hmore : Same ctx' ctx'') :
    Same ctx ctx'' :=
  ⟨hmore.fd.trans h.fd, hmore.requested.trans h.requested, hmore.accesses.trans h.accesses⟩

def refilled (len : ℕ) (ctx : SendContext) : SendContext :=
  { ctx with
    buf := (ctx.requested.drop ctx.off).take len
    ptr := 0
    remaining := len
    off := ctx.off + len }

theorem refilled_streams {dataId : Digest} {expired : Bool} {len : ℕ}
    (horigin : ctx.origin = .blob dataId expired) (hsize : ctx.sz = ctx.requested.length)
    (hread : expired = false ∧ s.db.tables.dataOf dataId = some ctx.requested)
    (hlen : ctx.off + len ≤ ctx.sz)
    (hflight : InFlight ctx.requested ctx.sent [] (ctx.requested.drop ctx.off)) :
    Streams s generation (ctx.refilled len) := by
  have hlength : ((ctx.requested.drop ctx.off).take len).length = len := by
    rw [List.length_take, List.length_drop]
    omega
  have hmemory : (ctx.refilled len).memory s generation [] =
      (ctx.requested.drop ctx.off).take len := by
    simp only [SendContext.memory, refilled, horigin]
  have hunread : (ctx.refilled len).unread = ctx.requested.drop (ctx.off + len) := by
    simp only [unread, refilled, horigin]
  constructor
  · exact .blob horigin hsize hlen fun _ => hread
  · rw [hmemory, hlength]
    exact (Nat.zero_add len).le
  · have hnext := hflight.refill len
    rw [List.drop_drop] at hnext
    rw [hmemory, hunread]
    simpa only [refilled, window_all hlength] using hnext

/-- Filling the buffer gets more of the requested data, or finds that there is no more. -/
theorem Streams.fill (h : Streams s generation ctx) :
    (ctx.fill s.db.tables = .error .done ∧ ctx.sent = ctx.requested) ∨
      ∃ ctx', ctx.fill s.db.tables = .ok ctx' ∧ Streams s generation ctx' ∧ Same ctx ctx' ∧
        ctx'.sent = ctx.sent ∧ 0 < ctx'.remaining := by
  obtain ⟨hbacked, hinside, hflight⟩ := h
  cases hbacked with
  | transient horigin hdata hmore =>
    refine Or.inr ⟨ctx, ?_, ⟨.transient horigin hdata hmore, hinside, hflight⟩, Same.refl ctx, rfl,
      hmore⟩
    simp only [SendContext.fill, horigin]
  | @blob dataId expired horigin hsize hoff hread =>
    by_cases hempty : ctx.remaining = 0
    · rw [hempty, window_zero, unread, horigin] at hflight
      by_cases hall : ctx.off < ctx.sz
      · -- the next piece of the row
        obtain ⟨rfl, hdata⟩ := hread hall
        have hlen : min (ctx.sz - ctx.off) sendBufsize ≠ 0 := by
          rw [sendBufsize]
          omega
        have hroom : ctx.off + min (ctx.sz - ctx.off) sendBufsize ≤ ctx.sz := by omega
        refine Or.inr ⟨ctx.refilled (min (ctx.sz - ctx.off) sendBufsize), ?_,
          refilled_streams horigin hsize ⟨rfl, hdata⟩ hroom hflight, ⟨rfl, rfl, rfl⟩, rfl,
          Nat.pos_of_ne_zero hlen⟩
        simp only [SendContext.fill, refilled, horigin, hempty, if_true, hlen, if_false, hdata,
          Bool.false_eq_true]
      · left
        have hnone : ctx.sz - ctx.off = 0 := by omega
        constructor
        · simp only [SendContext.fill, horigin, hempty, if_true, hnone, Nat.zero_min]
        · rw [List.drop_of_length_le (by omega)] at hflight
          exact hflight.complete
    · refine Or.inr ⟨ctx, ?_, ⟨.blob horigin hsize hoff hread, hinside, hflight⟩, Same.refl ctx,
        rfl, Nat.pos_of_ne_zero hempty⟩
      simp only [SendContext.fill, horigin, if_neg hempty]

/-- Bytes in the window are bytes that are still to be written. -/
theorem Streams.remaining_le (h : Streams s generation ctx) : ctx.remaining ≤ ctx.left := by
  have hlength := h.flight.length
  rw [window_length h.inside] at hlength
  rw [left]
  omega

theorem Streams.sent_isPrefix (h : Streams s generation ctx) : ctx.sent <+: ctx.requested :=
  h.flight.isPrefix

section Advance
variable {w : ℕ} (h : Streams s generation ctx) (hw : w ≤ ctx.remaining)
include h hw

/-- What is written comes off the front of the window. -/
theorem advance_flight : InFlight ctx.requested (ctx.advance (ctx.memory s generation []) w).sent
    (window (ctx.memory s generation []) (ctx.ptr + w) (ctx.remaining - w)) ctx.unread := by
  have hsend := h.flight.send w
  rwa [take_window hw, drop_window] at hsend

theorem advance_left (hpos : 0 < w) :
    (ctx.advance (ctx.memory s generation []) w).left < ctx.left := by
  have hleft := h.remaining_le
  have hinside := h.inside
  have hsent : (ctx.advance (ctx.memory s generation []) w).sent.length = ctx.sent.length + w := by
    have hwindow := @window_length _ (ctx.memory s generation []) ctx.ptr w (by omega)
    rw [advance, List.length_append]
    exact congrArg (ctx.sent.length + ·) hwindow
  rw [left] at hleft ⊢
  rw [left, hsent]
  change ctx.requested.length - (ctx.sent.length + w) < _
  omega

theorem advance_streams (hgoes : ctx.isTransient = true → w < ctx.remaining) :
    Streams s generation (ctx.advance (ctx.memory s generation []) w) := by
  constructor
  · cases h.backed with
    | blob horigin hsize hoff hread => exact .blob horigin hsize hoff hread
    | transient horigin hdata hmore =>
      have htransient : ctx.isTransient = true := by simp only [isTransient, horigin]
      have hless := hgoes htransient
      exact .transient horigin hdata (Nat.sub_pos_of_lt hless)
  · have hinside := h.inside
    change ctx.ptr + w + (ctx.remaining - w) ≤ (ctx.memory s generation []).length
    omega
  · exact advance_flight h hw

/-- The transient data has nothing behind the window. -/
theorem advance_complete (htransient : ctx.isTransient = true) (hall : w = ctx.remaining) :
    (ctx.advance (ctx.memory s generation []) w).sent = ctx.requested := by
  have hflight := advance_flight h hw
  have hunread : ctx.unread = [] := by
    cases h.backed with
    | blob horigin => simp only [isTransient, horigin, Bool.false_eq_true] at htransient
    | transient horigin => simp only [unread, horigin]
  rw [hall, Nat.sub_self, window_zero, hunread] at hflight
  rw [hall]
  exact hflight.complete

end Advance

def Turn.Fine (s : State) (generation : ℕ) (out : Written) (ctx : SendContext) : Turn → Prop
  | .again ctx' => Streams s generation ctx' ∧ Same ctx ctx' ∧ out ≠ .eagain ∧
      ∀ n, out = .wrote n → ctx'.left < ctx.left
  | .blocked ctx' => Streams s generation ctx' ∧ Same ctx ctx' ∧ out = .eagain ∧ 0 < ctx.left
  | .ended ctx' how => Same ctx ctx' ∧ if how.readToEnd
      then how = .done ∧ ctx'.sent = ctx'.requested else out = .error

theorem turn_fine (h : Streams s generation ctx) (stale : Bytes) (out : Written) :
    Turn.Fine s generation out ctx (ctx.turn s generation stale out) := by
  rcases h.fill with ⟨hfill, hsent⟩ | ⟨ctx', hfill, h', hsame, hsent, hmore⟩
  · simp only [turn, hfill]
    exact ⟨Same.refl ctx, rfl, hsent⟩
  · have hleft : ctx'.left = ctx.left := by rw [left, left, hsame.requested, hsent]
    simp only [turn, hfill]
    cases out with
    | eintr => exact ⟨h', hsame, nofun, nofun⟩
    | eagain =>
      refine ⟨h', hsame, rfl, ?_⟩
      have := h'.remaining_le
      omega
    | error => exact ⟨hsame, rfl⟩
    | wrote n =>
      have hw : min (n + 1) ctx'.remaining ≤ ctx'.remaining := Nat.min_le_right ..
      have hpos : 0 < min (n + 1) ctx'.remaining := by omega
      dsimp only
      rw [h'.backed.memory stale]
      split
      · rename_i hdone
        obtain ⟨htransient, hempty⟩ := Bool.and_eq_true_iff.mp hdone
        have hzero : ctx'.remaining - min (n + 1) ctx'.remaining = 0 := of_decide_eq_true hempty
        exact ⟨hsame.trans ⟨rfl, rfl, rfl⟩, rfl, advance_complete h' hw htransient (by omega)⟩
      · rename_i hgoes
        refine ⟨advance_streams h' hw ?_, hsame.trans ⟨rfl, rfl, rfl⟩, nofun, fun _ _ => ?_⟩
        · intro htransient
          by_contra hall
          apply hgoes
          have hzero : ctx'.remaining - min (n + 1) ctx'.remaining = 0 := by omega
          exact Bool.and_eq_true_iff.mpr ⟨htransient, decide_eq_true hzero⟩
        · exact (advance_left h' hw hpos).trans_eq hleft

/-- A context that has ended while the receiver was reading has written everything. -/
theorem Turn.Fine.sent {out : Written} {ctx' : SendContext} {how : SendEnd}
    (h : Turn.Fine s generation out ctx (.ended ctx' how)) (hread : how.readToEnd = true) :
    ctx'.sent = ctx'.requested := by
  have hend := h.2
  rw [if_pos hread] at hend
  exact hend.2

theorem Turn.Fine.done {out : Written} {ctx' : SendContext} {how : SendEnd}
    (h : Turn.Fine s generation out ctx (.ended ctx' how)) (hout : out ≠ .error) :
    how = .done ∧ ctx'.sent = ctx.requested := by
  obtain ⟨hsame, hend⟩ := h
  by_cases hread : how.readToEnd = true
  · rw [if_pos hread] at hend
    exact ⟨hend.1, hend.2.trans hsame.requested⟩
  · rw [if_neg hread] at hend
    exact absurd hend hout

def Turn.FineAll (s : State) (generation : ℕ) (ctx : SendContext) : Turn → Prop
  | .again _ => False
  | .blocked ctx' => Streams s generation ctx' ∧ Same ctx ctx'
  | .ended ctx' how => Same ctx ctx' ∧ (how.readToEnd = true → ctx'.sent = ctx'.requested)

/-- The loop stops with the context on its way or with everything written. -/
theorem writeLoop_fine (h : Streams s generation ctx) (stale : Bytes) (outs : List Written) :
    Turn.FineAll s generation ctx (ctx.writeLoop s generation stale outs) := by
  induction outs generalizing ctx with
  | nil =>
    have hturn := turn_fine h stale .eagain
    rw [writeLoop]
    generalize ctx.turn s generation stale .eagain = result at hturn ⊢
    cases result with
    | again ctx' => exact absurd rfl hturn.2.2.1
    | blocked ctx' => exact ⟨hturn.1, hturn.2.1⟩
    | ended ctx' how => exact ⟨hturn.1, hturn.sent⟩
  | cons out outs ih =>
    have hturn := turn_fine h stale out
    rw [writeLoop]
    generalize ctx.turn s generation stale out = result at hturn ⊢
    cases result with
    | again ctx' =>
      have hrest := ih hturn.1
      dsimp only
      generalize ctx'.writeLoop s generation stale outs = result' at hrest ⊢
      cases result' with
      | again => exact hrest
      | blocked ctx'' => exact ⟨hrest.1, hturn.2.1.trans hrest.2⟩
      | ended ctx'' how => exact ⟨hturn.2.1.trans hrest.1, hrest.2⟩
    | blocked ctx' => exact ⟨hturn.1, hturn.2.1⟩
    | ended ctx' how => exact ⟨hturn.1, hturn.sent⟩

/-- While the receiver takes what it is given, at least one byte at a time, all of the data is
written and the descriptor is closed. -/
theorem writeLoop_drains (h : Streams s generation ctx) (stale : Bytes) {outs : List Written}
    (houts : ∀ out ∈ outs, ∃ n, out = .wrote n) (hlong : ctx.left ≤ outs.length) :
    ∃ ctx', ctx.writeLoop s generation stale outs = .ended ctx' .done ∧
      ctx'.sent = ctx.requested := by
  induction outs generalizing ctx with
  | nil =>
    have hturn := turn_fine h stale .eagain
    rw [writeLoop]
    generalize ctx.turn s generation stale .eagain = result at hturn ⊢
    cases result with
    | again ctx' => exact absurd rfl hturn.2.2.1
    | blocked ctx' =>
      have hleft : 0 < ctx.left := hturn.2.2.2
      exact absurd hlong hleft.not_ge
    | ended ctx' how =>
      obtain ⟨rfl, hsent⟩ := hturn.done nofun
      exact ⟨ctx', rfl, hsent⟩
  | cons out outs ih =>
    obtain ⟨n, rfl⟩ := houts out List.mem_cons_self
    have hturn := turn_fine h stale (.wrote n)
    rw [writeLoop]
    generalize ctx.turn s generation stale (.wrote n) = result at hturn ⊢
    cases result with
    | again ctx' =>
      have hless := hturn.2.2.2 n rfl
      rw [List.length_cons] at hlong
      obtain ⟨ctx'', hend, hsent⟩ := ih hturn.1
        (fun out hout => houts out (List.mem_cons_of_mem _ hout)) (by omega)
      exact ⟨ctx'', hend, hsent.trans hturn.2.1.requested⟩
    | blocked ctx' => exact absurd hturn.2.2.1 nofun
    | ended ctx' how =>
      obtain ⟨rfl, hsent⟩ := hturn.done nofun
      exact ⟨ctx', rfl, hsent⟩

end Streams

end SendContext

/-! ## What has to be left alone -/

def Access.gone? : Access → Option ℕ
  | .freed generation => some generation
  | .read _ => none

def Access.used? : Access → Option ℕ
  | .freed _ => none
  | .read generation => some generation

/-- An event leaves what the context still has to read: its row, or the transient data. -/
def SendContext.Spared (clears : Bool) (t t' : Tables) (ctx : SendContext) : Prop :=
  match ctx.origin with
  | .blob dataId _ => ctx.off < ctx.sz → t'.dataOf dataId = t.dataOf dataId
  | .transient .. => clears = false

instance (clears : Bool) (t t' : Tables) (ctx : SendContext) :
    Decidable (ctx.Spared clears t t') :=
  match ctx with
  | ⟨_, .blob dataId _, _, _, _, sz, off, _, _⟩ =>
    inferInstanceAs (Decidable (off < sz → t'.dataOf dataId = t.dataOf dataId))
  | ⟨_, .transient .., _, _, _, _, _, _, _⟩ => inferInstanceAs (Decidable (clears = false))

def Event.isRestart : Event → Bool
  | .restart _ => true
  | _ => false

namespace Pasting

/-- Unless it ends the session, the event leaves to each open context what it still has to
read. -/
def Spares (x : Pasting) : Wakeup → Prop
  | .event i => i.event.isRestart = true ∨ ∀ ctx ∈ x.contexts,
      ctx.Spared (clearsTransient x.state i.event) x.state.db.tables
        (Swayclip.step x.state i).db.tables
  | .send .. => True
  | .writable .. => True

instance (x : Pasting) : ∀ e, Decidable (x.Spares e)
  | .event i => inferInstanceAs (Decidable (i.event.isRestart = true ∨ ∀ ctx ∈ x.contexts,
      ctx.Spared (clearsTransient x.state i.event) x.state.db.tables
        (Swayclip.step x.state i).db.tables))
  | .send .. => isTrue trivial
  | .writable .. => isTrue trivial

/-- The transient data is not read after it has been freed, a receiver that reads to the end
has been sent what was requested, and one that goes on reading is going to be. -/
structure Isolated (x : Pasting) : Prop where
  held : NeverAfter Access.gone? Access.used? x.trace
  whole : ∀ p ∈ x.ended, p.2.readToEnd = true → p.1.sent = p.1.requested
  part : ∀ ctx ∈ x.contexts, ctx.sent <+: ctx.requested
  drains : ∀ ctx ∈ x.contexts, ∀ stale outs, (∀ out ∈ outs, ∃ n, out = Written.wrote n) →
    ctx.left ≤ outs.length →
      ∃ ctx', ctx.writeLoop x.state x.generation stale outs = .ended ctx' .done ∧
        ctx'.sent = ctx.requested

end Pasting

/-! ## Accepting -/

namespace Pasting

section Accept
variable {setup : Setup} {mimeType : CString} {fd : ℕ} {x : Pasting} {ctx : SendContext}

theorem databaseOpenData_snd (ok : Bool) (id : ℤ) (mime : CString) (db : Database) :
    (databaseOpenData ok id mime db).map Prod.snd = databaseGetData ok id mime db := by
  cases ok with
  | false => rfl
  | true =>
    simp only [databaseOpenData, databaseGetData, if_true, getData, Option.map_bind]
    congr 1
    funext dataId
    rw [Function.comp_apply, Option.map_map]
    exact Option.map_id' ..

inductive Accepted (setup : Setup) (mimeType : CString) (fd : ℕ) (x : Pasting) : SendContext → Prop
  | blob {dataId : Digest} {data : Bytes} (hset : x.state.id ≠ -1) (hentry : x.state.id > 0)
      (hdata : databaseOpenData setup.getData x.state.id mimeType x.state.db =
        some (dataId, data)) :
      Accepted setup mimeType fd x ⟨fd, .blob dataId false, [], 0, 0, data.length, 0, data, []⟩
  | transient {e : CString × Bytes} (hset : x.state.id ≠ -1) (hentry : ¬ x.state.id > 0)
      (hfind : x.state.transient.find? (fun e => e.1 = mimeType) = some e) (hdata : e.2 ≠ []) :
      Accepted setup mimeType fd x
        ⟨fd, .transient x.generation mimeType, [], 0, e.2.length, 0, 0, e.2, []⟩

theorem accept_accepted (h : x.accept setup mimeType fd = some ctx) :
    Accepted setup mimeType fd x ctx := by
  simp only [accept] at h
  split at h
  · cases h
  · rename_i hset
    split at h
    · cases h
    · split at h
      · cases h
      · split at h
        · rename_i hentry
          split at h
          · cases h
          · rename_i dataId data hdata
            split at h
            · obtain rfl := Option.some.inj h
              exact .blob hset hentry hdata
            · cases h
        · rename_i hentry
          split at h
          · cases h
          · rename_i m data hfind
            split at h
            · rename_i hok
              obtain rfl := Option.some.inj h
              exact .transient hset hentry hfind hok.1
            · cases h

/-- An accepted request is for the data that the type has at that moment. -/
theorem accept_requested (h : x.accept setup mimeType fd = some ctx) :
    x.state.wsignalSend setup.getData mimeType = some ctx.requested := by
  cases accept_accepted h with
  | blob hset hentry hdata =>
    rw [State.wsignalSend, if_neg hset, if_pos hentry, ← databaseOpenData_snd, hdata,
      Option.map_some]
  | transient hset hentry hfind hdata =>
    rw [State.wsignalSend, if_neg hset, if_neg hentry, hfind, Option.bind_some, if_neg hdata]

theorem databaseOpenData_dataOf {ok : Bool} {id : ℤ} {mime : CString} {db : Database}
    {dataId : Digest} {data : Bytes} (h : databaseOpenData ok id mime db = some (dataId, data)) :
    db.tables.dataOf dataId = some data := by
  simp only [databaseOpenData] at h
  split at h
  · obtain ⟨d, -, hd⟩ := Option.bind_eq_some_iff.mp h
    obtain ⟨data', hdata, hpair⟩ := Option.map_eq_some_iff.mp hd
    obtain ⟨rfl, rfl⟩ := Prod.mk.inj hpair
    exact hdata
  · cases h

/-- A new context is at the beginning of its data. -/
theorem accept_streams (h : x.accept setup mimeType fd = some ctx) :
    ctx.Streams x.state x.generation := by
  cases accept_accepted h with
  | @blob dataId data hset hentry hdata =>
    refine ⟨.blob rfl rfl (Nat.zero_le _) fun _ => ⟨rfl, databaseOpenData_dataOf hdata⟩,
      le_refl _, ?_⟩
    rw [window_zero]
    exact inFlight_unread data
  | @transient e hset hentry hfind hdata =>
    have hbacked : SendContext.Backed x.state x.generation
        ⟨fd, .transient x.generation mimeType, [], 0, e.2.length, 0, 0, e.2, []⟩ :=
      .transient rfl (by rw [hfind, Option.map_some]) (List.length_pos_iff.mpr hdata)
    have hmemory : SendContext.memory x.state x.generation []
        ⟨fd, .transient x.generation mimeType, [], 0, e.2.length, 0, 0, e.2, []⟩ = e.2 := by
      simp only [SendContext.memory, if_true, hfind, Option.map_some, Option.getD_some]
    refine ⟨hbacked, ?_, ?_⟩
    · rw [hmemory]
      exact (Nat.zero_add e.2.length).le
    · rw [hmemory, window_all rfl]
      exact inFlight_buffered e.2

end Accept

/-! ## Events -/

/-- Unless it is a restart or invokes `clear_transient`, an event keeps the transient data. -/
theorem step_transient {s : State} {i : Input} (hsession : ∀ config, i.event ≠ .restart config)
    (hclears : clearsTransient s i.event = false) :
    (Swayclip.step s i).transient = s.transient := by
  have htransition := State.step_transition s i
  generalize Swayclip.step s i = s' at htransition ⊢
  cases htransition with
  | quiet hevent h => exact h.transient
  | restarted hevent => exact absurd hevent (hsession _)
  | @delivered name seat written timerOk hevent h =>
    have hempty : seat.mimeTypes = [] := by
      have hreaches := (State.delivers_iff.mp h).2
      rw [hevent] at hclears
      simpa [clearsTransient, h.found, hreaches] using hclears
    simp only [State.wsignalSelection, hempty, List.length_nil, if_true]
    rfl
  | @served fd msg client hevent hclient =>
    apply State.messageCallback_preserve (P := fun x => x.transient = s.transient) i.ambient _
      client msg rfl
    intro n x y heffect hx
    cases heffect with
    | client | emit | reset | delete | clear => exact hx
    | set ignore id => exact (State.set_transient ..).trans hx
    | update id pinned =>
      rw [← hx, State.update]
      split <;> rfl

theorem storeSelection_transient (a : Ambient) (name : SelectionName)
    (written : ℕ → Option Bytes) (mimeTypes : List CString) (s : State) :
    (s.storeSelection a name written mimeTypes).transient = s.transient := by
  apply Library.Runs.preserve (P := fun x => x.transient = s.transient)
    (State.storeSelection_parts a name written mimeTypes s) _ rfl
  intro x y hpart hx
  cases hpart with
  | database | emit | reset => exact hx
  | set name id => exact (State.set_transient ..).trans hx

/-- After an event that invokes `clear_transient` there is no transient data but what the event
itself has received. -/
theorem step_clears {s : State} {i : Input} (hclears : clearsTransient s i.event = true) :
    (Swayclip.step s i).transient = [] ∨ ∃ written mimeTypes,
      receiveAll s.config written 0 mimeTypes = some (Swayclip.step s i).transient := by
  obtain ⟨event, ambient⟩ := i
  cases event with
  | selection name offer timerOk =>
    cases offer with
    | none => cases hclears
    | some written =>
      simp only [clearsTransient] at hclears
      split at hclears
      · cases hclears
      · rename_i seat hseat
        obtain ⟨hreaches, hmime⟩ := Bool.and_eq_true_iff.mp hclears
        have hlength : seat.mimeTypes.length ≠ 0 := by
          intro hzero
          simp [List.length_eq_zero_iff.mp hzero] at hmime
        rw [State.step_delivers (State.delivers_iff.mpr ⟨hseat, hreaches⟩)]
        simp only [State.wsignalSelection, hlength, if_false]
        split
        · simp only [State.storeTransient]
          split
          · exact Or.inl rfl
          · rename_i data hdata
            refine Or.inr ⟨written, seat.mimeTypes, ?_⟩
            have hset := State.set_transient (ambient 0).sql (some name) 0
              { (s.withOffer name seat).clearTransient with id := -1, transient := data }
            exact hdata.trans (congrArg some hset.symm)
        · left
          split
          · rfl
          · exact storeSelection_transient ..
  | _ => cases hclears

/-! ## Runs -/

/-- Every open context is on its way, and nothing that was freed is in use. -/
structure Steady (x : Pasting) : Prop where
  streams : ∀ ctx ∈ x.contexts, ctx.Streams x.state x.generation
  ledger : Closed Access.gone? Access.used? (fun g => g = x.generation)
    (fun g => x.generation < g) x.trace
  whole : ∀ p ∈ x.ended, p.2.readToEnd = true → p.1.sent = p.1.requested

theorem Steady.isolated {x : Pasting} (h : x.Steady) : x.Isolated := by
  constructor
  · exact h.ledger.never
  · exact h.whole
  · exact fun ctx hctx => (h.streams ctx hctx).sent_isPrefix
  · intro ctx hctx stale outs houts hlong
    exact SendContext.writeLoop_drains (h.streams ctx hctx) stale houts hlong

/-- The next time the transient data is filled, it is not what was freed before. -/
theorem closed_freed {g : ℕ} {trace : List Access}
    (h : Closed Access.gone? Access.used? (fun i => i = g) (fun i => g < i) trace) :
    Closed Access.gone? Access.used? (fun i => i = g + 1) (fun i => g + 1 < i)
      (trace ++ [.freed g]) := by
  apply h.extend
  · rintro i rfl
    exact Or.inr (Nat.lt_succ_self g)
  · exact fun i hi => Nat.lt_of_succ_lt hi
  · intro a ha i hi
    rw [List.mem_singleton.mp ha] at hi
    cases hi
  · intro a ha i hi
    rw [List.mem_singleton.mp ha] at hi
    obtain rfl := Option.some.inj hi
    omega
  · exact neverAfter_singleton _

section Spared
variable {x : Pasting} {i : Input} {ctx : SendContext}

/-- A context that is left what it has to read stays on its way. -/
theorem spared_streams (h : ctx.Streams x.state x.generation)
    (hsession : ∀ config, i.event ≠ .restart config) {g : ℕ}
    (hg : clearsTransient x.state i.event = false → g = x.generation)
    (hspared : ctx.Spared (clearsTransient x.state i.event) x.state.db.tables
      (Swayclip.step x.state i).db.tables) :
    (ctx.expire (Swayclip.step x.state i).db.tables).Streams (Swayclip.step x.state i) g := by
  obtain ⟨hbacked, hinside, hflight⟩ := h
  cases hbacked with
  | @blob dataId expired horigin hsize hoff hread =>
    have hexpire : ctx.expire (Swayclip.step x.state i).db.tables = { ctx with
        origin := .blob dataId
          (expired || ((Swayclip.step x.state i).db.tables.dataOf dataId).isNone) } := by
      simp only [SendContext.expire, horigin]
    simp only [SendContext.Spared, horigin] at hspared
    simp only [SendContext.memory, SendContext.unread, horigin] at hinside hflight
    rw [hexpire]
    refine ⟨.blob rfl hsize hoff fun hall => ?_, hinside, hflight⟩
    obtain ⟨hopen, hdata⟩ := hread hall
    have hkept := (hspared hall).trans hdata
    rw [hopen, hkept]
    exact ⟨rfl, rfl⟩
  | @transient m horigin hdata hmore =>
    simp only [SendContext.Spared, horigin] at hspared
    obtain rfl := hg hspared
    have hkept := step_transient hsession hspared
    have hexpire : ctx.expire (Swayclip.step x.state i).db.tables = ctx := by
      simp only [SendContext.expire, horigin]
    have hmemory : ctx.memory (Swayclip.step x.state i) x.generation [] =
        ctx.memory x.state x.generation [] := by
      simp only [SendContext.memory, horigin, hkept]
    rw [hexpire]
    refine ⟨.transient horigin (by rw [hkept]; exact hdata) hmore, ?_, ?_⟩
    · rwa [hmemory]
    · rwa [hmemory]

end Spared

section Step
variable {x : Pasting}

theorem isRestart_iff {event : Event} :
    event.isRestart = true ↔ ∃ config, event = .restart config := by
  cases event <;> simp [Event.isRestart]

theorem handle_eq {i : Input} (hsession : ∀ config, i.event ≠ .restart config) (x : Pasting) :
    x.handle i = if clearsTransient x.state i.event then
      { x with
        state := Swayclip.step x.state i
        generation := x.generation + 1
        contexts := x.contexts.map (SendContext.expire (Swayclip.step x.state i).db.tables)
        trace := x.trace ++ [.freed x.generation] }
    else { x with
      state := Swayclip.step x.state i
      contexts := x.contexts.map (SendContext.expire (Swayclip.step x.state i).db.tables) } := by
  simp only [handle]

theorem steady_restart {i : Input} {config : Config} (hevent : i.event = .restart config)
    (h : x.Steady) : (x.handle i).Steady := by
  simp only [handle, hevent]
  constructor
  · exact nofun
  · exact closed_freed h.ledger
  · intro p hp hread
    rcases List.mem_append.mp hp with hp | hp
    · exact h.whole p hp hread
    · obtain ⟨ctx, -, rfl⟩ := List.mem_map.mp hp
      cases hread

theorem steady_handle {i : Input} (h : x.Steady) (hspares : x.Spares (.event i)) :
    (x.handle i).Steady := by
  by_cases hrestart : i.event.isRestart = true
  · obtain ⟨config, hevent⟩ := isRestart_iff.mp hrestart
    exact steady_restart hevent h
  · have hspared := hspares.resolve_left hrestart
    have hsession : ∀ config, i.event ≠ .restart config :=
      fun config hevent => hrestart (isRestart_iff.mpr ⟨config, hevent⟩)
    have hstreams : ∀ g, (clearsTransient x.state i.event = false → g = x.generation) →
        ∀ ctx ∈ x.contexts.map (SendContext.expire (Swayclip.step x.state i).db.tables),
          ctx.Streams (Swayclip.step x.state i) g := by
      intro g hg ctx hctx
      obtain ⟨old, hold, rfl⟩ := List.mem_map.mp hctx
      exact spared_streams (h.streams old hold) hsession hg (hspared old hold)
    rw [handle_eq hsession]
    split
    · rename_i hclears
      exact ⟨hstreams _ (by rw [hclears]; exact nofun), closed_freed h.ledger, h.whole⟩
    · exact ⟨hstreams _ fun _ => rfl, h.ledger, h.whole⟩

theorem steady_wsignalSend (h : x.Steady) (setup : Setup) (mimeType : CString) (fd : ℕ) :
    (x.wsignalSend setup mimeType fd).Steady := by
  rw [wsignalSend]
  split
  · exact h
  · split
    · exact h
    · rename_i ctx hctx
      refine ⟨?_, h.ledger, h.whole⟩
      intro other hother
      obtain rfl | hother := List.mem_cons.mp hother
      · exact accept_streams hctx
      · exact h.streams other hother

theorem steady_sendContextFree (h : x.Steady) {ctx : SendContext} {how : SendEnd}
    (hsent : how.readToEnd = true → ctx.sent = ctx.requested) :
    (x.sendContextFree ctx how).Steady := by
  refine ⟨?_, h.ledger, ?_⟩
  · exact fun other hother => h.streams other (List.mem_of_mem_filter hother)
  · intro p hp hread
    rcases List.mem_append.mp hp with hp | hp
    · exact h.whole p hp hread
    · obtain rfl := List.mem_singleton.mp hp
      exact hsent hread

theorem steady_putContext (h : x.Steady) {ctx : SendContext}
    (hctx : ctx.Streams x.state x.generation) : (x.putContext ctx).Steady := by
  refine ⟨?_, h.ledger, h.whole⟩
  intro other hother
  obtain ⟨old, hold, rfl⟩ := List.mem_map.mp hother
  split
  · exact hctx
  · exact h.streams old hold

/-- A context that is on its way reads what is there. -/
theorem steady_accesses (h : x.Steady) {ctx : SendContext}
    (hctx : ctx.Streams x.state x.generation) :
    ({ x with trace := x.trace ++ ctx.accesses } : Pasting).Steady := by
  refine ⟨h.streams, ?_, h.whole⟩
  have hreads : ∀ a ∈ ctx.accesses, a = .read x.generation := by
    cases hctx.backed with
    | blob horigin => simp [SendContext.accesses, horigin]
    | transient horigin => simp [SendContext.accesses, horigin]
  have hnothing : ∀ a ∈ ctx.accesses, a.gone? = none := by
    intro a ha
    rw [hreads a ha]
    rfl
  apply h.ledger.extend
  · exact fun i hi => Or.inl hi
  · exact fun i hi => hi
  · intro a ha i hi
    rw [hreads a ha] at hi
    exact (Option.some.inj hi).symm
  · intro a ha i hi
    rw [hnothing a ha] at hi
    cases hi
  · exact neverAfter_of_none hnothing

theorem steady_writeCallback (h : x.Steady) {ctx : SendContext} (hctx : ctx ∈ x.contexts)
    (hangup : Bool) (outs : List Written) (stale : Bytes) :
    (x.writeCallback hangup outs stale ctx).Steady := by
  have hstreams := h.streams ctx hctx
  have hloop := SendContext.writeLoop_fine hstreams stale outs
  have hread := steady_accesses h hstreams
  rw [writeCallback]
  split
  · exact steady_sendContextFree h nofun
  · generalize ctx.writeLoop x.state x.generation stale outs = result at hloop ⊢
    cases result with
    | again ctx' => exact hloop.elim
    | blocked ctx' => exact steady_putContext hread hloop.1
    | ended ctx' how => exact steady_sendContextFree hread hloop.2

theorem steady_step {e : Wakeup} (h : x.Steady) (hspares : x.Spares e) : (x.step e).Steady := by
  cases e with
  | event i => exact steady_handle h hspares
  | send setup mimeType fd => exact steady_wsignalSend h setup mimeType fd
  | writable fd hangup outs stale =>
    simp only [step]
    split
    · exact h
    · rename_i ctx hctx
      exact steady_writeCallback h (List.mem_of_find?_eq_some hctx) hangup outs stale

end Step

theorem steady_start (config : Config) (a : Ambient) : (start config a).Steady := by
  constructor
  · exact nofun
  · exact Closed.nil
  · exact nofun

/-- In every run in which no event takes away what an open context still has to read, pastes
are isolated. -/
theorem pastes_isolated {config : Config} {a : Ambient} {wakeups : List Wakeup}
    (h : Meets step Spares (start config a) wakeups) :
    (run step (start config a) wakeups).Isolated :=
  (run_invariant (fun _ _ hsteady hspares => steady_step hsteady hspares) (steady_start config a)
    h).isolated

def configTransient : Config :=
  { configInit with transientMimeTypes := [fun m => m = passwordHint] }

def allSetUp : Setup := ⟨true, true, true, true⟩

/-- In a first session, something is copied and its text is asked for. -/
def copyAndPaste (content : Content) : List Wakeup :=
  .event (.quiet (.addSeat 0 seat0)) ::
    ((copy (0, .regular) content).map .event ++ [.send allSetUp textPlain 7])

def password : Content := [(passwordHint, [49]), (textPlain, [65, 66])]

def firstByte : Wakeup := .writable 7 false [.wrote 0] []

/-- The password is pasted in two pieces before something else is copied. -/
theorem passwordPasted_isolated :
    (run step (start configTransient (.quiet 0)) (copyAndPaste password ++
      (firstByte :: firstByte :: (copy (0, .regular) textA).map .event))).Isolated :=
  pastes_isolated (by decide +kernel)

/-- Something is copied between the two pieces, and the second is read from freed memory; or
the entry is deleted before it is read at all, and the receiver gets nothing. -/
theorem overtaken_not_isolated :
    ¬ (run step (start configTransient (.quiet 0)) (copyAndPaste password ++
        (firstByte :: ((copy (0, .regular) textA).map .event ++
          [.writable 7 false [.wrote 0] [0]])))).Isolated ∧
      ¬ (run step (start configInit (.quiet 0)) (copyAndPaste textA ++
        [.event (.quiet (.connect 0)), .event (.quiet (.message 0 (some (.deleteEntry (some 1))))),
          firstByte])).Isolated := by
  constructor
  · intro h
    have htrace : (run step (start configTransient (.quiet 0)) (copyAndPaste password ++
        (firstByte :: ((copy (0, .regular) textA).map .event ++
          [.writable 7 false [.wrote 0] [0]])))).trace =
        [.freed 0, .read 1, .freed 1, .read 1] := by decide +kernel
    have hheld := h.held
    rw [htrace] at hheld
    simp [NeverAfter, Access.gone?, Access.used?] at hheld
  · intro h
    have hcut : (run step (start configInit (.quiet 0)) (copyAndPaste textA ++
        [.event (.quiet (.connect 0)), .event (.quiet (.message 0 (some (.deleteEntry (some 1))))),
          firstByte])).ended.all (fun p => !p.2.readToEnd || p.1.sent = p.1.requested) = false := by
      decide +kernel
    obtain ⟨p, hp, hnot⟩ := List.all_eq_false.mp hcut
    by_cases hread : p.2.readToEnd = true
    · simp [hread, h.whole p hp hread] at hnot
    · simp [hread] at hnot

end Pasting

end Swayclip
