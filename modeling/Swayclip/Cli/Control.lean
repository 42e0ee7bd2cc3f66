import Swayclip.Cli.Commands
import Swayclip.Cli.Listing

/-! # Controlling the clipboard

A command of `swctl` connects to the daemon, makes its request and reads the reply, while the daemon
goes on with everything else. It works on the clipboard that there is when its request is handled.
-/

namespace Swayclip
open Library Library.Lines Library.Runs Decimal Tables

/-! ## Running a command -/

/-- A command, the descriptor that the daemon accepts it on, and what the daemon finds outside. -/
structure Invocation where
  command : Cli.Command
  fd : ℕ
  ambient : Ambient

def Invocation.input (x : Invocation) (event : Event) : Input := ⟨event, fun _ => x.ambient⟩

namespace State
variable (text : JsonValue → Bytes) (width : UInt8 → ℕ)

/-- What `roundtrip` returns, if one message is sent to the client. -/
def obtained (fd : ℕ) (s : State) : Option Cli.Message :=
  match s.findClient fd with
  | none => none
  | some client =>
    match client.writeQueue with
    | [msg] => msg.deliver width
    | _ => none

def connected (x : Invocation) (s : State) : State := step s (x.input (.connect x.fd))

/-- The request is handled, if there is one. -/
def asked (x : Invocation) (s : State) : State :=
  match x.command.ask with
  | none => s
  | some ask => step s (x.input (.message x.fd (some (Request.ofJson text ask.payload))))

/-- What the command prints, and whether it succeeds. -/
def output (x : Invocation) (s : State) : Bytes × Bool :=
  x.command.run fun _ => s.obtained width x.fd

/-- What comes of a command: its output once `after` has passed, and the clipboard that its request
leaves. -/
def outcome (s : State) (after : List Input) (x : Invocation) : (Bytes × Bool) × Clipboard :=
  ((run step (s.asked text x) after).output width x, (s.asked text x).clipboard)

/-! ## One command -/

section Command
variable {text : JsonValue → Bytes} {width : UInt8 → ℕ} {s : State} {x : Invocation}

theorem fields_nodup (ask : Cli.Ask) : (ask.fields.map Prod.fst).Nodup := by
  cases ask <;> exact of_decide_eq_true rfl

/-- The daemon understands what is asked for. -/
theorem ofJson_payload (text : JsonValue → Bytes) {ask : Cli.Ask} (h : ask.Fits) :
    Request.ofJson text ask.payload = ask.request :=
  ofJson_of_fields text (fields_nodup ask) ask h fun _ hfield => hfield

theorem findClient_connected (hfresh : s.findClient x.fd = none) :
    (s.connected x).findClient x.fd = some (ipcAddClient x.fd) := by
  have hconnected : s.connected x = { s with ipc := ipcAddClient x.fd :: s.ipc } := by
    change s.connect x.fd = _
    rw [connect, hfresh]
  rw [hconnected]
  exact List.find?_cons_of_pos (decide_eq_true rfl)

/-- A client waits while other things happen. -/
theorem run_unsubscribed {fd : ℕ} {client : Client} (hevents : client.events = [])
    {inputs : List Input} (h : ∀ i ∈ inputs, i.Spares fd)
    (hclient : s.findClient fd = some client) : (run step s inputs).findClient fd = some client :=
  run_invariant (I := fun s : State => s.findClient fd = some client) (C := fun _ i => i.Spares fd)
    (fun _ _ hs hspares => step_unsubscribed hspares hs hevents) hclient
    (Meets.of_mem fun i hi _ => h i hi)

/-- The first request of a client is handled at once. -/
theorem step_first {i : Input} {fd : ℕ} {req : Request}
    (hclient : s.findClient fd = some (ipcAddClient fd))
    (hevent : i.event = .message fd (some req)) : step s i =
      ((((s.onClient fd fun c => { c with handlingReq := true }).requestCallback (i.ambient 0) fd
        req).onClient fd fun c => { c with handlingReq := false }).onClient fd
          (release (ipcAddClient fd))).onClient fd Client.ipcClientFlushEvents := by
  have hback : holdBack (ipcAddClient fd) req = fun c => c := rfl
  have hbatch : batch (ipcAddClient fd) req = [req] := rfl
  have hfd : (ipcAddClient fd).fd = fd := rfl
  simp only [step, handle, hevent, hclient, messageCallback_eq, hback, hbatch, onClient_self,
    handleRequests, hfd]
  rfl

/-- A command whose request is served. -/
theorem outcome_of_serves {after : List Input} (hafter : ∀ i ∈ after, i.Spares x.fd)
    (hwf : s.WF) (hclient : s.findClient x.fd = some (ipcAddClient x.fd)) {ask : Cli.Ask}
    (hask : x.command.ask = some ask) {msg : Message} {c : Clipboard}
    (hsize : msg.toJson.size width ≤ maxPayload)
    (h : ∀ t : State, t.WF → t.clipboard = s.clipboard → Serves x.ambient ask.request t msg c) :
    s.outcome text width after x = (x.command.finish msg.atClient, c) := by
  let i := x.input (.message x.fd (some ask.request))
  let handled := s.onClient x.fd fun c => { c with handlingReq := true }
  have hasked : s.asked text x = step s i := by
    rw [asked, hask]
    dsimp only
    rw [ofJson_payload text (Cli.Command.ask_fits hask)]
  have hserves : Serves x.ambient ask.request handled msg c :=
    h handled ⟨hwf.db, hwf.disk⟩ rfl
  have hopened : handled.findClient x.fd = some { ipcAddClient x.fd with handlingReq := true } :=
    findClient_onClient_self (f := fun c => { c with handlingReq := true }) (fun _ => rfl) hclient
  have hserved := hserves.reply x.fd _ hopened rfl
  have hclosed := findClient_onClient_self (f := fun c => { c with handlingReq := false })
    (fun _ => rfl) hserved
  have hreleased := findClient_onClient_self (release_fd (ipcAddClient x.fd)) hclosed
  have hflushed := findClient_onClient_self (f := Client.ipcClientFlushEvents) (fun _ => rfl)
    hreleased
  have hanswered := (congrArg (fun t => t.findClient x.fd)
    (step_first (i := i) hclient rfl)).trans hflushed
  rw [← hasked] at hanswered
  have hwaited := run_unsubscribed rfl hafter hanswered
  have hobtained : (run step (s.asked text x) after).obtained width x.fd = some msg.atClient := by
    rw [obtained, hwaited]
    exact if_pos hsize
  have hclipboard : (s.asked text x).clipboard = c := by
    rw [hasked, step_first (i := i) hclient rfl]
    exact hserves.clipboard x.fd
  rw [outcome, output, Cli.Command.run, hask, hclipboard]
  dsimp only
  rw [hobtained]

/-- An argument is missing: nothing is asked for. -/
theorem outcome_of_none (after : List Input) (hask : x.command.ask = none) :
    s.outcome text width after x = (([], false), s.clipboard) := by
  rw [outcome, output, Cli.Command.run, asked, hask]

theorem size_success (width : UInt8 → ℕ) (data : Option Bytes) :
    (Message.success data).toJson.size width ≤ maxPayload := by
  simp [Message.toJson, Json.size, Json.fieldsSize, maxPayload]

theorem size_error (hwidth : ∀ b, width b ≤ 6) (desc : Bytes) :
    (Message.error (desc.take 255)).toJson.size width ≤ maxPayload :=
  error_size hwidth (List.length_take_le ..)

theorem size_number {n : ℤ} (h : Cli.Ask.Fits.InRange n) : (decimal n).length ≤ 20 := by
  refine length_decimal_le (k := 19) (by decide) ?_
  obtain ⟨hmin, hmax⟩ := h
  rw [JsonValue.int64Min] at hmin
  rw [JsonValue.int64Max] at hmax
  omega

/-- A command that names an entry which the daemon has to find. -/
theorem outcome_onEntry {after : List Input} (hafter : ∀ i ∈ after, i.Spares x.fd) (hwf : s.WF)
    (hwidth : ∀ b, width b ≤ 6) (hclient : s.findClient x.fd = some (ipcAddClient x.fd))
    {ask : Cli.Ask} (hask : x.command.ask = some ask)
    (hfinish : ∀ resp, x.command.finish resp = ([], Cli.isSuccess resp)) {id : ℤ}
    {f : Clipboard → Clipboard}
    (hserved : ∀ t : State, t.WF → t.clipboard.Has id →
      Serves x.ambient ask.request t (.success none) (f t.clipboard))
    (hmissing : ∀ t : State, ¬ t.clipboard.Has id → ∀ fd,
      t.requestCallback x.ambient fd ask.request = t.sendError fd (idDoesNotExist id)) :
    s.outcome text width after x = s.clipboard.onEntry id f := by
  rw [Clipboard.onEntry]
  split
  · rename_i hhas
    rw [outcome_of_serves hafter hwf hclient hask (size_success width none) fun t ht hsame =>
      hsame ▸ hserved t ht (hsame.symm ▸ hhas), hfinish]
    rfl
  · rename_i hhas
    rw [outcome_of_serves hafter hwf hclient hask (size_error hwidth _) fun t _ hsame =>
      hsame ▸ serves_missing (hmissing t (hsame.symm ▸ hhas)), hfinish]
    rfl

theorem not_idExists {t : State} {sql : Sql} (hsql : sql = allOk) {id : ℤ}
    (h : ¬ t.clipboard.Has id) : databaseIdExists (sql .idExists 0) id t.db = false := by
  rw [has_iff, Bool.not_eq_true] at h
  rw [hsql, databaseIdExists, allOk_apply, Bool.true_and, h]

section Entries
variable {after : List Input} (hafter : ∀ i ∈ after, i.Spares x.fd) (hwf : s.WF)
  (hwidth : ∀ b, width b ≤ 6) (hclient : s.findClient x.fd = some (ipcAddClient x.fd))
  (hsql : x.ambient.sql = allOk)
include hafter hwf hwidth hclient hsql

theorem outcome_choose {id : ℤ} (hask : x.command.ask = some (.setClipboard id))
    (hfinish : ∀ resp, x.command.finish resp = ([], Cli.isSuccess resp)) :
    s.outcome text width after x = s.clipboard.choose id := by
  rw [Clipboard.choose]
  split
  · rename_i hid
    subst hid
    rw [outcome_of_serves hafter hwf hclient hask (size_success width none) fun t _ hsame =>
      hsame ▸ serves_setClipboard hsql (Or.inl rfl), hfinish]
    rfl
  · rename_i hid
    refine outcome_onEntry hafter hwf hwidth hclient hask hfinish
      (fun t _ hhas => serves_setClipboard hsql (Or.inr hhas)) fun t hnot fd => ?_
    have hmissing : id ≠ -1 ∧ (!databaseIdExists (x.ambient.sql .idExists 0) id t.db) = true := by
      rw [not_idExists hsql hnot]
      exact ⟨hid, rfl⟩
    exact if_pos hmissing

theorem outcome_discard {id : ℤ} (hask : x.command.ask = some (.deleteEntry id))
    (hfinish : ∀ resp, x.command.finish resp = ([], Cli.isSuccess resp)) :
    s.outcome text width after x = s.clipboard.discard id := by
  rw [Clipboard.discard]
  split
  · rename_i hid
    subst hid
    rw [outcome_of_serves hafter hwf hclient hask (size_success width none) fun t ht _ =>
      serves_clear ht hsql, hfinish]
    rfl
  · rename_i hid
    refine outcome_onEntry hafter hwf hwidth hclient hask hfinish
      (fun t ht hhas => serves_deleteEntry ht hsql hhas) fun t hnot fd => ?_
    change t.serveDeleteEntry x.ambient fd (some id) = _
    rw [serveDeleteEntry]
    rw [if_neg hid, not_idExists hsql hnot]
    rfl

theorem outcome_pin {id : ℤ} {unpin toggle : Bool}
    (hask : x.command.ask = some (.pinEntry id (Cli.Command.pinArg unpin toggle)))
    (hfinish : ∀ resp, x.command.finish resp = ([], Cli.isSuccess resp)) :
    s.outcome text width after x = s.clipboard.onEntry id
      (Clipboard.setPinned id fun old => if toggle then !old else !unpin) := by
  have hpin : Cli.Command.pinArg unpin toggle ≠ .other := by
    cases unpin <;> cases toggle <;> exact PinArg.noConfusion
  have hflag : (fun old => if toggle then !old else !unpin) =
      Clipboard.pinned (Cli.Command.pinArg unpin toggle) := by
    funext old
    cases unpin <;> cases toggle <;> rfl
  rw [hflag]
  refine outcome_onEntry hafter hwf hwidth hclient hask hfinish
    (fun t ht hhas => serves_pinEntry ht hsql hhas hpin) fun t hnot fd => ?_
  change t.servePinEntry x.ambient fd (some id) (some (Cli.Command.pinArg unpin toggle)) = _
  rw [servePinEntry, not_idExists hsql hnot]
  rfl

theorem outcome_fetch (hmemfd : x.ambient.memfd = .ok) {id : ℤ} {mimeType : CString}
    (hask : x.command.ask = some (.getData id mimeType)) {idArg mimeArg : Option CString}
    (hcommand : x.command = .get idArg mimeArg) :
    s.outcome text width after x = s.clipboard.fetch id mimeType := by
  have hserves : ∀ t : State, t.WF → t.clipboard = s.clipboard → Serves x.ambient
      (.getData (some id) (some mimeType)) t (dataReply mimeType (s.clipboard.data id mimeType))
      s.clipboard := fun t _ hsame =>
    hsame ▸ serves_getData hsql hmemfd id mimeType
  rw [Clipboard.fetch]
  cases hdata : s.clipboard.data id mimeType with
  | none =>
    rw [hdata] at hserves
    rw [outcome_of_serves hafter hwf hclient hask (size_error hwidth _) hserves, hcommand]
    rfl
  | some data =>
    rw [hdata, dataReply] at hserves
    by_cases hlong : mimeType.bytes.length > memfdNameMax
    · rw [if_pos hlong] at hserves
      dsimp only
      rw [outcome_of_serves hafter hwf hclient hask (error_size hwidth (by decide)) hserves,
        hcommand, if_pos hlong]
      rfl
    · rw [if_neg hlong] at hserves
      dsimp only
      rw [outcome_of_serves hafter hwf hclient hask (size_success width _) hserves, hcommand,
        if_neg hlong]
      rfl

end Entries

/-- The numbers that are printed are of type `int64_t`. -/
structure Small (s : State) : Prop where
  current : Cli.Ask.Fits.InRange s.clipboard.current
  length : Cli.Ask.Fits.InRange s.clipboard.history.length

/-- Every command does what it is for. -/
theorem outcome_eq {after : List Input} (hafter : ∀ i ∈ after, i.Spares x.fd) (hwf : s.WF)
    (hwidth : ∀ b, width b ≤ 6) (hsmall : s.Small)
    (hclient : s.findClient x.fd = some (ipcAddClient x.fd)) (hsql : x.ambient.sql = allOk)
    (hmemfd : x.ambient.memfd = .ok) :
    s.outcome text width after x = s.clipboard.run x.command := by
  obtain ⟨command, fd, a⟩ := x
  cases command with
  | len =>
    have hsize : (Message.size s.clipboard.history.length).toJson.size width ≤ maxPayload := by
      have hnumber := size_number hsmall.length
      have hkey := Json.stringSize_le hwidth (jsonKey "size")
      have hlength : (jsonKey "size").length = 4 := rfl
      simp only [Message.toJson, jsonFieldInt, Json.size, Json.fieldsSize, List.length_cons,
        List.length_nil, maxPayload]
      omega
    exact outcome_of_serves hafter hwf hclient rfl hsize fun t _ hsame =>
      hsame ▸ serves_getHistoryLength hsql
  | current =>
    have hsize : (Message.current s.clipboard.current).toJson.size width ≤ maxPayload := by
      have hnumber := size_number hsmall.current
      simp only [Message.toJson, Json.size, maxPayload]
      omega
    exact outcome_of_serves hafter hwf hclient rfl hsize fun t _ hsame =>
      hsame ▸ serves_getCurrent
  | get id mimeType =>
    cases mimeType with
    | none => cases id <;> exact outcome_of_none after rfl
    | some mimeType =>
      cases id with
      | none => exact outcome_of_none after rfl
      | some id => exact outcome_fetch hafter hwf hwidth hclient hsql hmemfd rfl rfl
  | set clear decode stdin arg =>
    have hchoose : ∀ id, (Cli.Command.set clear decode stdin arg).ask = some (.setClipboard id) →
        s.outcome text width after ⟨.set clear decode stdin arg, fd, a⟩ = s.clipboard.choose id :=
      fun id hask => outcome_choose hafter hwf hwidth hclient hsql hask fun _ => rfl
    cases decode with
    | true =>
      cases stdin with
      | nil => exact outcome_of_none after rfl
      | cons first stdin => exact hchoose _ rfl
    | false =>
      cases clear with
      | true => exact hchoose _ rfl
      | false =>
        cases arg with
        | none => exact outcome_of_none after rfl
        | some arg => exact hchoose _ rfl
  | delete clear arg =>
    have hdiscard : ∀ id, (Cli.Command.delete clear arg).ask = some (.deleteEntry id) →
        s.outcome text width after ⟨.delete clear arg, fd, a⟩ = s.clipboard.discard id :=
      fun id hask => outcome_discard hafter hwf hwidth hclient hsql hask fun _ => rfl
    cases clear with
    | true => exact hdiscard _ rfl
    | false =>
      cases arg with
      | none => exact outcome_of_none after rfl
      | some arg => exact hdiscard _ rfl
  | pin unpin toggle arg =>
    cases arg with
    | none => exact outcome_of_none after rfl
    | some arg => exact outcome_pin hafter hwf hwidth hclient hsql rfl fun _ => rfl

end Command

end State

/-- Whatever happens between its steps, a command sees and changes the clipboard at one moment, when
its request is handled: it prints what it has to print of this clipboard, and leaves what it has to
make of it. -/
theorem command_atomic (text : JsonValue → Bytes) {width : UInt8 → ℕ} (hwidth : ∀ b, width b ≤ 6)
    {s : State} (hs : Reachable s) {x : Invocation} (hfresh : s.findClient x.fd = none)
    {before after : List Input} (hbefore : ∀ i ∈ before, i.Spares x.fd)
    (hafter : ∀ i ∈ after, i.Spares x.fd) (hsql : x.ambient.sql = allOk)
    (hmemfd : x.ambient.memfd = .ok) :
    let t := run step (s.connected x) before
    t.Small →
      (run step (t.asked text x) after).output width x = (t.clipboard.run x.command).1 ∧
        (t.asked text x).clipboard = (t.clipboard.run x.command).2 := by
  intro t hsmall
  have hreached : Reachable t := (hs.step (x.input (.connect x.fd))).run before
  have hclient : t.findClient x.fd = some (ipcAddClient x.fd) :=
    State.run_unsubscribed rfl hbefore (State.findClient_connected hfresh)
  have houtcome : t.outcome text width after x = t.clipboard.run x.command :=
    State.outcome_eq hafter hreached.wf hwidth hsmall hclient hsql hmemfd
  exact ⟨congrArg Prod.fst houtcome, congrArg Prod.snd houtcome⟩

/-- `swctl delete 1`. -/
def deleteFirst : Invocation := ⟨.delete false (some ⟨[49], by decide⟩), 5, .quiet 1⟩

/-- What happens once the command has connected: a text is copied. -/
def copiedBefore : List Input :=
  .quiet (.addSeat 0 seat0) :: copy (0, .regular) [(textPlain, [65])]

theorem copiedBefore_spares : ∀ i ∈ copiedBefore, i.Spares 5 := by
  intro i hi
  simp only [copiedBefore, copy, offerEvents, List.map_cons, List.map_nil, List.cons_append,
    List.nil_append, List.mem_cons, List.not_mem_nil, or_false] at hi
  obtain rfl | rfl | rfl | rfl := hi <;>
    exact ⟨⟨fun _ => Event.noConfusion, Event.noConfusion⟩, fun _ => Event.noConfusion⟩

/-- The text is deleted, and with it what the clipboard was set to. -/
theorem deleteFirst_atomic :
    let t := run step ((boot configInit (.quiet 0)).connected deleteFirst) copiedBefore
    t.clipboard.history = [(1, false)] ∧ t.clipboard.current = 1 ∧
      let u := t.asked (fun _ => []) deleteFirst
      (run step u [.quiet (.removeSeat 0)]).output (fun _ => 1) deleteFirst = ([], true) ∧
        u.clipboard.history = [] ∧ u.clipboard.current = -1 := by
  intro t
  have hhistory : t.clipboard.history = [(1, false)] := by decide +kernel
  have hcurrent : t.clipboard.current = 1 := by decide +kernel
  have hsmall : t.Small := by
    constructor
    · rw [hcurrent]
      exact ⟨by decide, by decide⟩
    · rw [hhistory]
      exact ⟨by decide, by decide⟩
  have hhas : t.clipboard.Has 1 := by
    rw [Clipboard.Has, hhistory]
    decide
  have hid : Cli.strtol [49] = 1 := by decide
  have hrun : ∀ c : Clipboard, c.Has 1 →
      c.run deleteFirst.command = (([], true), c.remove 1) := by
    intro c hc
    change c.discard (Cli.strtol [49]) = _
    rw [hid]
    exact (if_neg (by decide)).trans (if_pos hc)
  have hafter : ∀ i ∈ [Input.quiet (.removeSeat 0)], i.Spares 5 := by
    intro i hi
    rw [List.mem_singleton.mp hi]
    exact ⟨⟨fun _ => Event.noConfusion, Event.noConfusion⟩, fun _ => Event.noConfusion⟩
  have hwidth : ∀ b : UInt8, (fun _ => 1 : UInt8 → ℕ) b ≤ 6 := fun _ => (by decide : 1 ≤ 6)
  obtain ⟨houtput, hclipboard⟩ := command_atomic (fun _ => []) hwidth
    (Reachable.boot configInit (.quiet 0)) rfl copiedBefore_spares hafter rfl rfl hsmall
  rw [hrun _ hhas] at houtput hclipboard
  have hrest : ∀ c : Clipboard, (c.remove 1).history = c.history.filter (·.1 ≠ 1) := fun _ => rfl
  have hreset : ∀ c : Clipboard, (c.remove 1).current = if c.current = 1 then -1 else c.current :=
    fun _ => rfl
  refine ⟨hhistory, hcurrent, houtput, ?_, ?_⟩
  · rw [hclipboard, hrest, hhistory]
    rfl
  · rw [hclipboard, hreset, if_pos hcurrent]

end Swayclip
