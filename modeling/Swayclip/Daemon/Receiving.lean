import Swayclip.Daemon.Selection

/-! # Reading what a client writes

`io_read` collects what arrives at the end of a pipe until the other end is closed. Its size check
comes before its look at the error code.
-/

namespace Swayclip

def ssizeMax : ℕ := 9223372036854775807

def sizeT (n : ℤ) : ℕ := (n % 18446744073709551616).toNat

/-- What `read` does; `again` is one of the three errors after which the loop goes on. -/
inductive ReadResult where
  | bytes (data : Bytes)
  | error (again : Bool)

def ReadResult.ret : ReadResult → ℤ
  | .bytes data => data.length
  | .error _ => -1

/-- What `poll` does. `closed` stands for `POLLHUP`, `POLLERR` and `POLLNVAL`. -/
inductive PollResult where
  | timeout
  | error (eintr : Bool)
  | events (pollin closed : Bool)

/-- A turn of the loop; `read` is called only where `poll` has reported `POLLIN`. -/
structure IoTurn where
  poll : PollResult
  read : ReadResult

/-- `struct io_read`, with all that was handed to `data_callback`. -/
structure IoRead where
  data : Bytes
  fed : Bytes

namespace IoRead

def fail (ctx : IoRead) : Option Bool × IoRead := (some false, { ctx with data := [] })

/-- One turn, after which the loop goes on unless there is a result. -/
def turn (maxBytes : ℕ) (ctx : IoRead) (t : IoTurn) : Option Bool × IoRead :=
  match t.poll with
  | .timeout => ctx.fail
  | .error eintr => if eintr then (none, ctx) else ctx.fail
  | .events pollin closed =>
    if !pollin && closed then
      if ctx.data.length = 0 then ctx.fail else (some true, ctx)
    else if !pollin then (none, ctx)
    else
      let total := sizeT (ctx.data.length + t.read.ret)
      if total > maxBytes ∨ total > uint32Max then ctx.fail
      else
        match t.read with
        | .error again => if again then (none, ctx) else ctx.fail
        | .bytes data =>
          if data.length > 0 then (none, ⟨ctx.data ++ data, ctx.fed ++ data⟩) else (some true, ctx)

/-- `io_read`; no result means that it waits. -/
def ioRead (maxBytes : ℕ) (ctx : IoRead) : List IoTurn → Option Bool × IoRead
  | [] => (none, ctx)
  | t :: ts =>
    match ctx.turn maxBytes t with
    | (none, ctx) => ctx.ioRead maxBytes ts
    | (some ret, ctx) => (some ret, ctx)

/-- `xarray_init_io`, with nothing handed on yet. -/
def init : IoRead := ⟨[], []⟩

end IoRead

/-! ## Ways to deliver a stream -/

/-- What happens before the end of a stream: `poll` or `read` is interrupted, or bytes arrive. The
other end may have been closed already. -/
inductive Arrival where
  | pollEintr
  | again (closed : Bool)
  | chunk (closed : Bool) (data : Bytes) (hpos : 0 < data.length) (hmax : data.length ≤ ssizeMax)

/-- The end of a stream: `POLLHUP` without `POLLIN`, or a `read` that returns 0. -/
inductive StreamEnd where
  | hangUp
  | eof (closed : Bool)

def Arrival.turn : Arrival → IoTurn
  | .pollEintr => ⟨.error true, .error true⟩
  | .again closed => ⟨.events true closed, .error true⟩
  | .chunk closed data _ _ => ⟨.events true closed, .bytes data⟩

def Arrival.data : Arrival → Bytes
  | .chunk _ data _ _ => data
  | _ => []

def StreamEnd.turn : StreamEnd → IoTurn
  | .hangUp => ⟨.events false true, .error true⟩
  | .eof closed => ⟨.events true closed, .bytes []⟩

/-- A stream on its way through the pipe. -/
structure Delivery where
  arrivals : List Arrival
  ending : StreamEnd

namespace Delivery

def stream (d : Delivery) : Bytes := d.arrivals.flatMap Arrival.data

def turns (d : Delivery) : List IoTurn := d.arrivals.map Arrival.turn ++ [d.ending.turn]

end Delivery

def Fits (maxBytes : ℕ) (stream : Bytes) : Prop :=
  stream.length ≤ maxBytes ∧ stream.length ≤ uint32Max
deriving Decidable

def interruptedFirst : List Arrival → Bool
  | .pollEintr :: arrivals => interruptedFirst arrivals
  | .again _ :: _ => true
  | _ => false

/-- The result depends on the stream alone, which is collected and handed on if it is not too
large. -/
structure Delivery.Received (d : Delivery) (maxBytes : ℕ) : Prop where
  result : (IoRead.init.ioRead maxBytes d.turns).1 = some (decide (Fits maxBytes d.stream))
  data : Fits maxBytes d.stream → (IoRead.init.ioRead maxBytes d.turns).2 = ⟨d.stream, d.stream⟩

namespace IoRead
variable {maxBytes : ℕ} {ctx : IoRead}

theorem sizeT_nat {n : ℕ} (h : n < 18446744073709551616) : sizeT n = n := by
  unfold sizeT
  omega

/-- An interrupted `read` takes one byte off what has been counted. -/
theorem turn_again (closed : Bool) (hpos : 0 < ctx.data.length) (hfits : Fits maxBytes ctx.data) :
    ctx.turn maxBytes (Arrival.again closed).turn = (none, ctx) := by
  obtain ⟨hmax, hlimit⟩ := hfits
  have htotal : sizeT (ctx.data.length + -1) = ctx.data.length - 1 := by
    unfold sizeT
    unfold uint32Max at hlimit
    omega
  simp only [turn, Arrival.turn, ReadResult.ret, htotal]
  rw [if_neg (by simp), if_neg (by simp), if_neg (by omega), if_true]

/-- Before the first byte, it makes the largest number of all. -/
theorem turn_again_first (closed : Bool) (hnone : ctx.data = []) :
    ctx.turn maxBytes (Arrival.again closed).turn = ctx.fail := by
  have htotal : sizeT (ctx.data.length + -1) > uint32Max := by
    rw [hnone]
    decide
  simp only [turn, Arrival.turn, ReadResult.ret]
  rw [if_neg (by simp), if_neg (by simp), if_pos (Or.inr htotal)]

theorem turn_chunk (closed : Bool) (data : Bytes) (hpos : 0 < data.length)
    (hmax : data.length ≤ ssizeMax) (hlimit : ctx.data.length ≤ uint32Max) :
    ctx.turn maxBytes (Arrival.chunk closed data hpos hmax).turn =
      if Fits maxBytes (ctx.data ++ data) then (none, ⟨ctx.data ++ data, ctx.fed ++ data⟩)
      else ctx.fail := by
  have htotal : sizeT (ctx.data.length + data.length) = ctx.data.length + data.length := by
    unfold uint32Max at hlimit
    unfold ssizeMax at hmax
    exact_mod_cast sizeT_nat (n := ctx.data.length + data.length) (by omega)
  simp only [turn, Arrival.turn, ReadResult.ret, htotal]
  rw [if_neg (by simp), if_neg (by simp)]
  by_cases hfits : Fits maxBytes (ctx.data ++ data)
  · obtain ⟨hbytes, hwide⟩ := hfits
    rw [List.length_append] at hbytes hwide
    rw [if_neg (by omega), if_pos hpos, if_pos ⟨by simpa using hbytes, by simpa using hwide⟩]
  · rw [if_neg hfits, if_pos]
    by_contra hsmall
    apply hfits
    rw [Fits, List.length_append]
    omega

theorem turn_eof (closed : Bool) (hfits : Fits maxBytes ctx.data) :
    ctx.turn maxBytes (StreamEnd.eof closed).turn = (some true, ctx) := by
  obtain ⟨hmax, hlimit⟩ := hfits
  have htotal : sizeT (ctx.data.length + (0 : ℕ)) = ctx.data.length := by
    unfold uint32Max at hlimit
    exact_mod_cast sizeT_nat (n := ctx.data.length + 0) (by omega)
  simp only [turn, StreamEnd.turn, ReadResult.ret, List.length_nil, htotal]
  rw [if_neg (by simp), if_neg (by simp), if_neg (by omega), if_neg (by omega)]

theorem ioRead_done {t : IoTurn} {ret : Bool} {ctx' : IoRead}
    (h : ctx.turn maxBytes t = (some ret, ctx')) (ts : List IoTurn) :
    ctx.ioRead maxBytes (t :: ts) = (some ret, ctx') := by
  rw [ioRead, h]

theorem ioRead_next {t : IoTurn} {ctx' : IoRead} (h : ctx.turn maxBytes t = (none, ctx'))
    (ts : List IoTurn) : ctx.ioRead maxBytes (t :: ts) = ctx'.ioRead maxBytes ts := by
  rw [ioRead, h]

theorem turn_pollEintr : ctx.turn maxBytes Arrival.pollEintr.turn = (none, ctx) := rfl

theorem not_fits_append {stream : Bytes} (h : ¬ Fits maxBytes stream) (more : Bytes) :
    ¬ Fits maxBytes (stream ++ more) := by
  rintro ⟨hmax, hlimit⟩
  rw [List.length_append] at hmax hlimit
  exact h ⟨by omega, by omega⟩

/-- Once there are bytes, the rest arrives however it is delivered. -/
theorem ioRead_rest (ctx : IoRead) (arrivals : List Arrival) (ending : StreamEnd)
    (hpos : 0 < ctx.data.length) (hfits : Fits maxBytes ctx.data) :
    let ret := ctx.ioRead maxBytes (Delivery.turns ⟨arrivals, ending⟩)
    let stream := Delivery.stream ⟨arrivals, ending⟩
    ret.1 = some (decide (Fits maxBytes (ctx.data ++ stream))) ∧
      (Fits maxBytes (ctx.data ++ stream) → ret.2 = ⟨ctx.data ++ stream, ctx.fed ++ stream⟩) := by
  induction arrivals generalizing ctx with
  | nil =>
    have hend : ctx.turn maxBytes ending.turn = (some true, ctx) := by
      cases ending with
      | hangUp => simp [turn, StreamEnd.turn, hpos.ne']
      | eof closed => exact turn_eof closed hfits
    simp only [Delivery.turns, Delivery.stream, List.map_nil, List.nil_append, List.flatMap_nil,
      List.append_nil, ioRead_done hend]
    simp [hfits]
  | cons arrival arrivals ih =>
    cases arrival with
    | pollEintr =>
      simp only [Delivery.turns, List.map_cons, List.cons_append, ioRead_next turn_pollEintr]
      exact ih ctx hpos hfits
    | again closed =>
      simp only [Delivery.turns, List.map_cons, List.cons_append,
        ioRead_next (turn_again closed hpos hfits)]
      exact ih ctx hpos hfits
    | chunk closed data hdata hmax =>
      have hturn : ctx.turn maxBytes _ = _ := turn_chunk closed data hdata hmax hfits.2
      simp only [Delivery.turns, Delivery.stream, List.map_cons, List.cons_append,
        List.flatMap_cons, Arrival.data, ← List.append_assoc]
      by_cases hlarger : Fits maxBytes (ctx.data ++ data)
      · rw [if_pos hlarger] at hturn
        rw [ioRead_next hturn]
        have hmore : 0 < (ctx.data ++ data).length := by
          rw [List.length_append]
          omega
        exact ih _ hmore hlarger
      · rw [if_neg hlarger] at hturn
        have htoo := not_fits_append hlarger (arrivals.flatMap Arrival.data)
        rw [ioRead_done hturn, decide_eq_false htoo]
        exact ⟨rfl, fun h => absurd h htoo⟩

end IoRead

namespace Delivery
variable {arrivals : List Arrival} {ending : StreamEnd} {maxBytes : ℕ}

theorem received_again_iff (closed : Bool) :
    Received ⟨.again closed :: arrivals, ending⟩ maxBytes ↔
      ¬ Fits maxBytes (stream ⟨.again closed :: arrivals, ending⟩) := by
  have hfails : (IoRead.init.ioRead maxBytes (turns ⟨.again closed :: arrivals, ending⟩)).1 =
      some false := by
    rw [turns, List.map_cons, List.cons_append, IoRead.ioRead_done (IoRead.turn_again_first _ rfl)]
  constructor
  · intro h hfits
    have hresult := h.result
    rw [hfails, decide_eq_true hfits] at hresult
    cases hresult
  · intro hlarge
    refine ⟨?_, fun hfits => absurd hfits hlarge⟩
    rw [hfails, decide_eq_false hlarge]

theorem received_chunk (closed : Bool) (data : Bytes) (hpos : 0 < data.length)
    (hmax : data.length ≤ ssizeMax) :
    Received ⟨.chunk closed data hpos hmax :: arrivals, ending⟩ maxBytes := by
  have hturn : IoRead.init.turn maxBytes _ = _ :=
    IoRead.turn_chunk closed data hpos hmax (Nat.zero_le _)
  rw [show IoRead.init.data ++ data = data from rfl,
    show IoRead.init.fed ++ data = data from rfl] at hturn
  have hstream : stream ⟨.chunk closed data hpos hmax :: arrivals, ending⟩ =
      data ++ stream ⟨arrivals, ending⟩ := List.flatMap_cons
  have hturns : turns ⟨.chunk closed data hpos hmax :: arrivals, ending⟩ =
      (Arrival.chunk closed data hpos hmax).turn :: turns ⟨arrivals, ending⟩ := rfl
  by_cases hfits : Fits maxBytes data
  · rw [if_pos hfits] at hturn
    have hrest := IoRead.ioRead_rest (⟨data, data⟩ : IoRead) arrivals ending hpos hfits
    constructor
    · rw [hturns, hstream, IoRead.ioRead_next hturn]
      exact hrest.1
    · rw [hturns, hstream, IoRead.ioRead_next hturn]
      exact hrest.2
  · rw [if_neg hfits] at hturn
    have hlarge := IoRead.not_fits_append hfits (stream ⟨arrivals, ending⟩)
    constructor
    · rw [hturns, hstream, IoRead.ioRead_done hturn, decide_eq_false hlarge]
    · rw [hstream]
      exact fun h => absurd h hlarge

theorem fits_nil : Fits maxBytes [] := ⟨Nat.zero_le _, Nat.zero_le _⟩

theorem received_end_iff : Received ⟨[], ending⟩ maxBytes ↔ ending ≠ .hangUp := by
  cases ending with
  | hangUp =>
    refine iff_of_false (fun h => ?_) fun h => h rfl
    have hresult := h.result
    rw [stream, List.flatMap_nil, decide_eq_true fits_nil] at hresult
    cases hresult
  | eof closed =>
    refine iff_of_true ⟨?_, fun _ => ?_⟩ (fun h => by cases h)
    · rw [turns, List.map_nil, List.nil_append,
        IoRead.ioRead_done (IoRead.turn_eof closed fits_nil), stream, List.flatMap_nil,
        decide_eq_true fits_nil]
    · rw [turns, List.map_nil, List.nil_append,
        IoRead.ioRead_done (IoRead.turn_eof closed fits_nil)]
      rfl

/-- What makes a difference: an interruption before the first byte, and how an empty stream
ends. -/
theorem io_read_iff (d : Delivery) (maxBytes : ℕ) :
    d.Received maxBytes ↔ (Fits maxBytes d.stream →
      interruptedFirst d.arrivals = false ∧ (d.stream = [] → d.ending ≠ .hangUp)) := by
  obtain ⟨arrivals, ending⟩ := d
  induction arrivals with
  | nil =>
    rw [received_end_iff]
    exact ⟨fun h _ => ⟨rfl, fun _ => h⟩, fun h => (h fits_nil).2 rfl⟩
  | cons arrival arrivals ih =>
    cases arrival with
    | pollEintr =>
      have hsame : Received ⟨.pollEintr :: arrivals, ending⟩ maxBytes ↔
          Received ⟨arrivals, ending⟩ maxBytes :=
        ⟨fun h => ⟨h.result, h.data⟩, fun h => ⟨h.result, h.data⟩⟩
      rw [hsame, ih]
      exact Iff.rfl
    | again closed =>
      rw [received_again_iff]
      exact ⟨fun hlarge hfits => absurd hfits hlarge, fun h hfits => by cases (h hfits).1⟩
    | chunk closed data hpos hmax =>
      refine iff_of_true (received_chunk closed data hpos hmax) fun _ => ⟨rfl, fun hnil => ?_⟩
      rw [stream, List.flatMap_cons, List.append_eq_nil_iff] at hnil
      rw [show data = [] from hnil.1] at hpos
      exact absurd hpos (Nat.lt_irrefl 0)

/-- A single byte that arrives after an interrupted `read`, and no byte at all, with a hang-up. -/
theorem ioRead_depends_on_delivery :
    ¬ Received ⟨[.again false, .chunk false [65] (by decide) (by decide)], .eof false⟩ 20000000 ∧
      ¬ Received ⟨[], .hangUp⟩ 20000000 := by
  constructor
  · intro h
    exact absurd h.result (by decide)
  · intro h
    exact absurd h.result (by decide)

/-- How a pipe delivers what a client writes: the first `read` is not interrupted, and if the pipe
is closed without a byte, `POLLHUP` comes without `POLLIN`. -/
structure ThroughPipe (d : Delivery) : Prop where
  uninterrupted : interruptedFirst d.arrivals = false
  closes : d.stream = [] → d.ending = .hangUp

theorem ioRead_empty (harrivals : interruptedFirst arrivals = false)
    (hempty : stream ⟨arrivals, .hangUp⟩ = []) :
    (IoRead.init.ioRead maxBytes (turns ⟨arrivals, .hangUp⟩)).1 = some false := by
  induction arrivals with
  | nil => rfl
  | cons arrival arrivals ih =>
    cases arrival with
    | pollEintr =>
      rw [turns, List.map_cons, List.cons_append, IoRead.ioRead_next IoRead.turn_pollEintr]
      exact ih harrivals hempty
    | again closed => cases harrivals
    | chunk closed data hpos hmax =>
      rw [stream, List.flatMap_cons, List.append_eq_nil_iff] at hempty
      rw [show data = [] from hempty.1] at hpos
      exact absurd hpos (Nat.lt_irrefl 0)

/-- `receiveData` is what `io_read` makes of a pipe. -/
theorem ThroughPipe.receiveData {d : Delivery} (h : d.ThroughPipe) (config : Config) :
    receiveData config (some d.stream) =
      if (IoRead.init.ioRead config.maxSize d.turns).1 = some true then
        some (IoRead.init.ioRead config.maxSize d.turns).2.data
      else none := by
  by_cases hempty : d.stream = []
  · obtain ⟨arrivals, ending⟩ := d
    obtain rfl : ending = .hangUp := h.closes hempty
    rw [ioRead_empty h.uninterrupted hempty, hempty]
    rfl
  · have hreceived := (io_read_iff d config.maxSize).mpr fun _ =>
      ⟨h.uninterrupted, fun hnil => absurd hnil hempty⟩
    rw [hreceived.result]
    by_cases hfits : Fits config.maxSize d.stream
    · rw [hreceived.data hfits, decide_eq_true hfits, if_pos rfl]
      exact Option.filter_eq_some_iff.mpr ⟨rfl, decide_eq_true ⟨hempty, hfits⟩⟩
    · rw [decide_eq_false hfits, if_neg (by simp)]
      refine Option.filter_eq_none_iff.mpr fun data hdata hsmall => ?_
      obtain rfl := Option.some.inj hdata
      exact hfits (of_decide_eq_true hsmall).2

end Delivery

end Swayclip
