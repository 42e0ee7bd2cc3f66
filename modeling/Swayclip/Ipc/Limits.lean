import Swayclip.Ipc.RoundTrip

/-! # Which messages a connection can carry

The writer queues any message whose size fits into its field, and the reader gives the connection
up over a message of more than 1 MiB. So a message is accepted exactly if it is no larger.
-/

namespace Swayclip
open Library.Frames Library.Incremental Library.Runs

variable {V : Type*} {T : JsonTokener V} {text : V → Bytes}

namespace Link

/-- Whenever the message is queued, and however it is sent and received then, it is delivered
behind what was queued before, and the connection goes on. -/
def Accepts (T : JsonTokener V) (text : V → Bytes) (wantFd : Bool) (m : Outgoing V) : Prop :=
  ∀ before after : List (LinkInput V), (∀ i ∈ after, i.queued = []) →
    Meets (step text wantFd) (Possible text wantFd) (start T) before →
    let queued := (run (step text wantFd) (start T) before).step text wantFd (.enqueue m)
    Meets (step text wantFd) (Possible text wantFd) queued after →
    let s := run (step text wantFd) queued after
    s.failed = false ∧ (s.queue = [] → s.wire = [] →
      s.delivered = (before.flatMap LinkInput.queued ++ [m]).map (Outgoing.received wantFd))

theorem accepts_of_sendable {m : Outgoing V} (hm : Sendable T text m) (wantFd : Bool) :
    Accepts T text wantFd m := by
  intro before after hafter hbefore queued hrest s
  obtain ⟨done, rest, part, hcarries⟩ := (start_carries wantFd).run hbefore
  obtain ⟨done', rest', part', hs⟩ := (hcarries.enqueue hm).run hrest
  have hsilent : after.flatMap LinkInput.queued = [] := List.flatMap_eq_nil_iff.mpr hafter
  rw [hsilent, List.append_nil, List.nil_append] at hs
  exact ⟨hs.outcome.1, hs.outcome.2.2⟩

/-! ## A message that is too large -/

/-- The writer does not queue it if its size does not fit into the field. -/
theorem not_accepts_of_not_queued {m : Outgoing V} (hlarge : (text m.payload).length > 4294967295)
    (wantFd : Bool) : ¬ Accepts T text wantFd m := by
  intro h
  have hqueue : (start T).step text wantFd (.enqueue m) = start T := by
    rw [step, ipcCtWriteMsg]
    simp only [if_pos hlarge]
  have hdelivered := (h [] [] (by simp) trivial trivial).2
  rw [run_nil, run_nil, hqueue] at hdelivered
  cases hdelivered rfl rfl

/-- The frame, sent at once, and received up to the end of its header. -/
def upToHeader (text : V → Bytes) (m : Outgoing V) : List (LinkInput V) :=
  [.write [.sent (messageBytes m.type (text m.payload)).length],
    .read [.data ((frameCells text m).take headerSize)]]

theorem bytesOf_header (text : V → Bytes) (m : Outgoing V) :
    bytesOf ((frameCells text m).take headerSize) =
      messageHeader m.type (text m.payload).length := by
  rw [bytesOf, List.map_take]
  change (bytesOf (frameCells text m)).take headerSize = _
  rw [frameCells, bytesOf_withFd, messageBytes_eq]
  exact List.take_left' rfl

theorem header_refused {m : Outgoing V} (hlarge : (text m.payload).length > maxPayload)
    (hfield : (text m.payload).length ≤ 4294967295) (wantFd : Bool) : ∃ ict',
      (ipcCtInit T).turn wantFd (.data ((frameCells text m).take headerSize)) =
        (some false, ict', []) := by
  have hbytes := bytesOf_header text m
  have hlength : ((frameCells text m).take headerSize).length = headerSize := by
    rw [← bytesOf_length, hbytes, messageHeader_length]
  have hroom : ([] : Bytes).length + ((frameCells text m).take headerSize).length ≤ headerSize := by
    rw [hlength]
    exact le_refl _
  have hturn := IpcCt.turn_header (ipcCtInit_stands T) hroom wantFd
  have hrefused : Cursor.opened ipcFormat ([] ++ messageHeader m.type (text m.payload).length) =
      .refused := by
    have hsize : ipcFormat.payloadSize (messageHeader m.type (text m.payload).length) = none := by
      simp only [ipcFormat, messageHeader, List.drop_succ_cons, List.drop_zero]
      rw [readUint32_uint32Bytes (by omega), if_pos hlarge]
    rw [Cursor.opened, List.nil_append, messageHeader_length,
      if_neg (show ¬ headerSize < ipcFormat.headerSize from lt_irrefl _), hsize]
  rw [hbytes, hrefused] at hturn
  exact hturn

/-- Otherwise the reader gives up at the header. -/
theorem not_accepts_of_refused {m : Outgoing V} (hlarge : (text m.payload).length > maxPayload)
    (hfield : (text m.payload).length ≤ 4294967295) (wantFd : Bool) :
    ¬ Accepts T text wantFd m := by
  intro h
  obtain ⟨ict', hturn⟩ := header_refused (T := T) hlarge hfield wantFd
  have hqueue : (start T).step text wantFd (.enqueue m) = { start T with
      queue := [⟨messageBytes m.type (text m.payload),
        (messageBytes m.type (text m.payload)).length, m.scmFd⟩] } := by
    rw [step, ipcCtWriteMsg]
    simp only [if_neg (by omega : ¬ (text m.payload).length > 4294967295)]
    rfl
  have hwrite : ({ start T with
      queue := [⟨messageBytes m.type (text m.payload),
        (messageBytes m.type (text m.payload)).length, m.scmFd⟩] } : Link T).step text wantFd
        (.write [.sent (messageBytes m.type (text m.payload)).length]) =
      { start T with wire := frameCells text m } := by
    have hpos : (messageBytes m.type (text m.payload)).length ≠ 0 := Nat.succ_ne_zero _
    simp only [step, ipcCtWrite, writeTurn, if_neg hpos, Nat.sub_self, List.drop_zero,
      List.take_length, if_true, List.append_nil]
    rfl
  have hread : ({ start T with wire := frameCells text m } : Link T).ict.ipcCtRead wantFd
      [.data ((frameCells text m).take headerSize)] = (some false, ict', [], []) := by
    change (ipcCtInit T).ipcCtRead _ _ = _
    rw [IpcCt.ipcCtRead, hturn]
  have hlength : ((frameCells text m).take headerSize).length = headerSize := by
    rw [← bytesOf_length, bytesOf_header, messageHeader_length]
  have hfailed := (h [] (upToHeader text m) (by simp [upToHeader, LinkInput.queued]) trivial ?_).1
  · rw [run_nil, hqueue, upToHeader, run_cons, hwrite, run_cons, run_nil, step, hread] at hfailed
    simp at hfailed
  · rw [run_nil, hqueue, upToHeader]
    refine ⟨?_, ?_, trivial⟩
    · intro o ho
      rw [List.mem_singleton.mp ho]
      exact ⟨fun heq => (by cases heq), fun heq => Nat.succ_ne_zero _ (SendMsg.sent.inj heq)⟩
    · rw [hwrite]
      refine ⟨?_, ⟨?_, trivial⟩, ?_, ?_⟩
      · intro r hr
        rw [List.mem_singleton.mp hr]
        exact fun heq => by cases heq
      · change ((frameCells text m).take headerSize).length ≤ (ipcCtInit T).recvLen
        rw [hlength]
        exact le_of_eq rfl
      · rw [receivedCells, receivedCells, List.append_nil]
        exact List.take_prefix ..
      · rw [hread]

theorem not_accepts_of_large {m : Outgoing V} (hlarge : (text m.payload).length > maxPayload)
    (wantFd : Bool) : ¬ Accepts T text wantFd m := by
  by_cases hfield : (text m.payload).length ≤ 4294967295
  · exact not_accepts_of_refused hlarge hfield wantFd
  · exact not_accepts_of_not_queued (by omega) wantFd

/-- The two limits together: only the reader's matters. -/
theorem accepts_iff {m : Outgoing V} (hpos : 1 ≤ (text m.payload).length)
    (hdoc : T.Document (text m.payload) m.payload) (wantFd : Bool) :
    Accepts T text wantFd m ↔ (text m.payload).length ≤ maxPayload := by
  constructor
  · intro h
    by_contra hlarge
    exact not_accepts_of_large (by omega) wantFd h
  · intro hle
    exact accepts_of_sendable ⟨hpos, hle, hdoc⟩ wantFd

end Link

end Swayclip
