import Swayclip.Ipc.Reader

/-! # Writing messages to the socket

`ipc_ct_write_msg` queues a message as bytes with a descriptor, and `ipc_ct_write` sends
from the front of the queue until it is empty or the socket takes no more. The descriptor
goes along with the first bytes that are accepted.
-/

namespace Swayclip

/-- `struct ipc_write`; its size is that of the data. -/
structure IpcWrite where
  data : Bytes
  remaining : ℕ
  scmFd : Option ℕ
deriving DecidableEq

/-- What one call of `sendmsg` yields. -/
inductive SendMsg where
  | sent (n : ℕ)
  | eintr
  | eagain
  | error
deriving DecidableEq

/-- What goes over the wire for bytes that are sent at once. -/
def withFd (fd : Option ℕ) : Bytes → List Cell
  | [] => []
  | b :: bs => (b, fd) :: bs.map (fun b => (b, none))

/-- The bytes of a message: its type, the size of its text, the text. -/
def messageBytes (type : UInt8) (text : Bytes) : Bytes :=
  type :: (uint32Bytes text.length ++ text)

/-- `ipc_ct_write_msg`, given the plain text of the object unless that is NULL. -/
def ipcCtWriteMsg (type : UInt8) (text : Option Bytes) (scmFd : Option ℕ)
    (queue : List IpcWrite) : List IpcWrite :=
  match text with
  | none => queue
  | some text =>
    if text.length > 4294967295 then queue
    else
      let data := messageBytes type text
      queue ++ [⟨data, data.length, scmFd⟩]

/-- One `sendmsg` for the front of the queue. The first result is what `ipc_ct_write` returns
and whether it asks to be polled, if it returns; `io_send` takes sending nothing for an
error. -/
def writeTurn (wr : IpcWrite) (queue : List IpcWrite) :
    SendMsg → Option (Bool × Bool) × List IpcWrite × List Cell
  | .eintr => (none, wr :: queue, [])
  | .eagain => (some (false, true), wr :: queue, [])
  | .error => (some (false, false), wr :: queue, [])
  | .sent n =>
    if n = 0 then (some (false, false), wr :: queue, [])
    else
      let off := wr.data.length - wr.remaining
      let cells := withFd wr.scmFd ((wr.data.drop off).take n)
      let wr := { wr with scmFd := none, remaining := wr.remaining - n }
      if wr.remaining = 0 then (none, queue, cells) else (none, wr :: queue, cells)

/-- `ipc_ct_write` on what its calls of `sendmsg` yield: its result, unless it still wants to
send, the queue, and what went over the wire. -/
def ipcCtWrite : List IpcWrite → List SendMsg → Option (Bool × Bool) × List IpcWrite × List Cell
  | [], _ => (some (true, false), [], [])
  | queue, [] => (none, queue, [])
  | wr :: queue, o :: os =>
    match writeTurn wr queue o with
    | (some ret, queue, cells) => (some ret, queue, cells)
    | (none, queue, cells) =>
      let (ret, queue, more) := ipcCtWrite queue os
      (ret, queue, cells ++ more)

/-! ## What is still to be sent -/

/-- What is still to go over the wire for an element of the queue. -/
def IpcWrite.pending (wr : IpcWrite) : List Cell :=
  withFd wr.scmFd (wr.data.drop (wr.data.length - wr.remaining))

/-- Something is to be sent, and the descriptor only when nothing has been sent. -/
structure IpcWrite.Proper (wr : IpcWrite) : Prop where
  pos : 0 < wr.remaining
  le : wr.remaining ≤ wr.data.length

@[simp] theorem withFd_none (bytes : Bytes) :
    withFd none bytes = bytes.map (fun b => (b, none)) := by
  cases bytes <;> rfl

@[simp] theorem bytesOf_withFd (fd : Option ℕ) (bytes : Bytes) :
    bytesOf (withFd fd bytes) = bytes := by
  cases bytes with
  | nil => rfl
  | cons b bs => simp [withFd, bytesOf, Function.comp_def]

theorem withFd_append (fd : Option ℕ) {xs : Bytes} (hxs : xs ≠ []) (ys : Bytes) :
    withFd fd (xs ++ ys) = withFd fd xs ++ withFd none ys := by
  cases xs with
  | nil => exact absurd rfl hxs
  | cons x xs =>
    rw [withFd_none]
    simp [withFd]

/-- What goes over the wire, and what stays in the queue, is what was pending. -/
theorem writeTurn_pending {wr : IpcWrite} (h : wr.Proper) (queue : List IpcWrite) (o : SendMsg) :
    (writeTurn wr queue o).2.2 ++ (writeTurn wr queue o).2.1.flatMap IpcWrite.pending =
      wr.pending ++ queue.flatMap IpcWrite.pending := by
  obtain ⟨data, remaining, scmFd⟩ := wr
  obtain ⟨hpos, hle⟩ := h
  cases o with
  | sent n =>
    simp only [writeTurn]
    simp only at hpos hle
    split
    · simp
    · rename_i hn
      have hlen : (data.drop (data.length - remaining)).length = remaining := by
        rw [List.length_drop]
        omega
      split
      · rename_i hdone
        rw [List.take_of_length_le (by omega)]
        rfl
      · rename_i hmore
        have htake : (data.drop (data.length - remaining)).take n ≠ [] := by
          rw [ne_eq, List.take_eq_nil_iff]
          rintro (h | h)
          · exact hn h
          · rw [h] at hlen
            simp at hlen
            omega
        have hrest : data.drop (data.length - (remaining - n)) =
            (data.drop (data.length - remaining)).drop n := by
          rw [List.drop_drop]
          congr 1
          omega
        simp only [List.flatMap_cons, IpcWrite.pending, hrest, ← List.append_assoc]
        rw [← withFd_append scmFd htake, List.take_append_drop]
  | eintr => rfl
  | eagain => rfl
  | error => rfl

theorem writeTurn_proper {wr : IpcWrite} (h : wr.Proper) {queue : List IpcWrite}
    (hqueue : ∀ wr ∈ queue, wr.Proper) (o : SendMsg) :
    ∀ wr' ∈ (writeTurn wr queue o).2.1, wr'.Proper := by
  have hcons : ∀ wr' ∈ wr :: queue, wr'.Proper := List.forall_mem_cons.mpr ⟨h, hqueue⟩
  cases o with
  | sent n =>
    simp only [writeTurn]
    split
    · exact hcons
    · split
      · exact hqueue
      · rename_i hmore
        have hle := h.le
        exact List.forall_mem_cons.mpr ⟨⟨Nat.pos_of_ne_zero hmore, by simp only; omega⟩, hqueue⟩
  | eintr => exact hcons
  | eagain => exact hcons
  | error => exact hcons

/-- A call of `ipc_ct_write` moves a part of the queue to the wire. -/
theorem ipcCtWrite_pending {queue : List IpcWrite} (h : ∀ wr ∈ queue, wr.Proper)
    (os : List SendMsg) :
    (ipcCtWrite queue os).2.2 ++ (ipcCtWrite queue os).2.1.flatMap IpcWrite.pending =
        queue.flatMap IpcWrite.pending ∧
      ∀ wr ∈ (ipcCtWrite queue os).2.1, wr.Proper := by
  induction os generalizing queue with
  | nil => cases queue <;> exact ⟨rfl, h⟩
  | cons o os ih =>
    cases queue with
    | nil => exact ⟨rfl, h⟩
    | cons wr queue =>
      obtain ⟨hwr, hqueue⟩ := List.forall_mem_cons.mp h
      have hturn := writeTurn_pending hwr queue o
      have hproper := writeTurn_proper hwr hqueue o
      rw [ipcCtWrite]
      generalize writeTurn wr queue o = result at hturn hproper ⊢
      obtain ⟨ret, queue', cells⟩ := result
      cases ret with
      | some ret => exact ⟨hturn, hproper⟩
      | none =>
        obtain ⟨hrest, hlast⟩ := ih hproper
        refine ⟨?_, hlast⟩
        simp only [List.append_assoc, hrest]
        exact hturn

/-- Nothing but an error makes a call of `ipc_ct_write` fail without asking to be polled. -/
theorem ipcCtWrite_ne_failed {os : List SendMsg}
    (hos : ∀ o ∈ os, o ≠ .error ∧ o ≠ .sent 0) (queue : List IpcWrite) :
    (ipcCtWrite queue os).1 ≠ some (false, false) := by
  induction os generalizing queue with
  | nil => cases queue <;> simp [ipcCtWrite]
  | cons o os ih =>
    obtain ⟨ho, hos⟩ := List.forall_mem_cons.mp hos
    cases queue with
    | nil => simp [ipcCtWrite]
    | cons wr queue =>
      have hturn : (writeTurn wr queue o).1 ≠ some (false, false) := by
        cases o with
        | sent n =>
          have hn : n ≠ 0 := fun hn => ho.2 (congrArg SendMsg.sent hn)
          simp only [writeTurn, if_neg hn]
          split <;> simp
        | eintr => simp [writeTurn]
        | eagain => simp [writeTurn]
        | error => exact absurd rfl ho.1
      rw [ipcCtWrite]
      generalize writeTurn wr queue o = result at hturn ⊢
      obtain ⟨ret, queue', cells⟩ := result
      cases ret with
      | some ret => exact hturn
      | none => exact ih hos queue'

end Swayclip
