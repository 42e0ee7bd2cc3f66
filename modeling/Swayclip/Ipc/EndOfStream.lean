import Swayclip.Ipc.Framing

/-! # Reading up to the end of the stream

Once the peer has closed the connection `recvmsg` yields nothing, over and over. Between two
frames or inside a header this makes `ipc_ct_read` return. Inside a payload it feeds the
tokener an empty piece and receives again.
-/

namespace Swayclip
open Library.Frames Library.Incremental Library.Runs

def RecvMsg.eof : RecvMsg := .data []

def advance (c : Cursor UInt8) : RecvMsg → Cursor UInt8
  | .data cells => c.step ipcFormat (bytesOf cells)
  | _ => c

/-- The outcome gives `ipc_ct_read` no reason to return: a call was interrupted, a payload is
being read, or a header has become complete and announces a payload that is not too large. -/
def CarriesOn (c : Cursor UInt8) : RecvMsg → Prop
  | .data cells => c.inPayload ∨ (c.step ipcFormat (bytesOf cells)).inPayload
  | .eintr => True
  | .eagain => False
  | .error => False

instance (c : Cursor UInt8) : DecidablePred (CarriesOn c)
  | .data _ => inferInstanceAs (Decidable (_ ∨ _))
  | .eintr => isTrue trivial
  | .eagain => isFalse id
  | .error => isFalse id

/-- The stream ends inside a payload, and nothing on the way makes the call return. -/
def EndsInPayload (c : Cursor UInt8) (rs : List RecvMsg) : Prop :=
  Meets advance CarriesOn c rs ∧ 0 < (run advance c rs).missing

variable {V : Type*} {T : JsonTokener V}

theorem readResult_eq_none_iff (c : Cursor UInt8) (p : Bytes) :
    readResult c p = none ↔ c.inPayload ∨ (c.step ipcFormat p).inPayload := by
  cases c with
  | header got =>
    simp only [readResult, Cursor.step, Cursor.inPayload]
    cases Cursor.opened ipcFormat (got ++ p) <;> simp
  | payload header n ps => simp [readResult, Cursor.inPayload]
  | refused => simp [readResult, Cursor.step, Cursor.inPayload]

/-- The reader describes a cursor after every turn that does not fail. -/
theorem turn_stands {ict : IpcCt T} {c : Cursor UInt8} (h : ict.Stands c)
    (hc : c.Proper ipcFormat) (wantFd : Bool) {r : RecvMsg} (hlen : r.size ≤ ict.recvLen)
    (hret : (ict.turn wantFd r).1 ≠ some false) :
    (ict.turn wantFd r).2.1.Stands (advance c r) ∧ (advance c r).Proper ipcFormat := by
  cases r with
  | data cells =>
    obtain ⟨ict', msgs, hturn, hstands, -⟩ := turn_data h hc hlen wantFd
    rw [hturn] at hret ⊢
    exact ⟨hstands hret, Cursor.step_proper hc (IpcCt.fits_cursor h hc hlen)⟩
  | eintr => exact ⟨h, hc⟩
  | eagain => exact ⟨h, hc⟩
  | error => exact absurd rfl hret

theorem run_stands {wantFd : Bool} {rs : List RecvMsg} (hfits : (ipcCtInit T).Fits wantFd rs)
    (halive : Meets (fun ict r => (ict.turn wantFd r).2.1)
      (fun ict r => (ict.turn wantFd r).1 ≠ some false) (ipcCtInit T) rs) :
    ∃ c, (run (fun ict r => (ict.turn wantFd r).2.1) (ipcCtInit T) rs).Stands c ∧
      c.Proper ipcFormat := by
  refine run_invariant (I := fun ict : IpcCt T => ∃ c, ict.Stands c ∧ c.Proper ipcFormat)
    (C := fun ict r => r.size ≤ ict.recvLen ∧ (ict.turn wantFd r).1 ≠ some false) ?_
    ⟨.fresh, ipcCtInit_stands T, Cursor.proper_fresh ipcFormat⟩ (hfits.and halive)
  rintro ict r ⟨c, h, hc⟩ ⟨hlen, hret⟩
  exact ⟨advance c r, turn_stands h hc wantFd hlen hret⟩

theorem turn_result {ict : IpcCt T} {c : Cursor UInt8} (h : ict.Stands c)
    (hc : c.Proper ipcFormat) {r : RecvMsg} (hlen : r.size ≤ ict.recvLen) (wantFd : Bool) :
    (ict.turn wantFd r).1 = none ↔ CarriesOn c r := by
  cases r with
  | data cells =>
    obtain ⟨ict', msgs, hturn, -⟩ := turn_data h hc hlen wantFd
    rw [hturn]
    exact readResult_eq_none_iff c (bytesOf cells)
  | eintr => simp [IpcCt.turn, CarriesOn]
  | eagain => simp [IpcCt.turn, CarriesOn]
  | error => simp [IpcCt.turn, CarriesOn]

theorem ipcCtRead_cons (wantFd : Bool) (ict : IpcCt T) (r : RecvMsg) (rs : List RecvMsg) :
    (ict.ipcCtRead wantFd (r :: rs)).1 = match (ict.turn wantFd r).1 with
      | some b => some b
      | none => ((ict.turn wantFd r).2.1.ipcCtRead wantFd rs).1 := by
  rw [IpcCt.ipcCtRead]
  obtain ⟨ret, ict', msgs⟩ := ict.turn wantFd r
  cases ret <;> rfl

/-- Inside a payload the end of the stream changes nothing. -/
theorem eof_in_payload {ict : IpcCt T} {c : Cursor UInt8} (h : ict.Stands c)
    (hc : c.Proper ipcFormat) (hmissing : 0 < c.missing) (wantFd : Bool) (n : ℕ) :
    (ict.ipcCtRead wantFd (List.replicate n .eof)).1 = none := by
  induction n generalizing ict c with
  | zero => rfl
  | succ n ih =>
    cases c with
    | header got => exact absurd hmissing (by simp [Cursor.missing])
    | payload header size ps =>
      have hnone := (turn_result h hc (r := .eof) (Nat.zero_le _) wantFd).mpr (Or.inl rfl)
      obtain ⟨hstands, hproper⟩ := turn_stands h hc wantFd (r := .eof)
        (Nat.zero_le _) (by simp [hnone])
      have hstill : 0 < (advance (.payload header size ps) .eof).missing := by
        have hlt : ps.flatten.length < size := Nat.lt_of_sub_pos hmissing
        have hsame : (ps ++ [([] : Bytes)]).flatten.length = ps.flatten.length := by simp
        simp only [advance, RecvMsg.eof, bytesOf, List.map_nil, Cursor.step, hsame, if_pos hlt,
          Cursor.missing]
        exact hmissing
      rw [List.replicate_succ, ipcCtRead_cons, hnone]
      exact ih hstands hproper hstill
    | refused => exact absurd h id

/-- Inside a header the end of the stream makes the call return. -/
theorem eof_in_header {ict : IpcCt T} {got : Bytes} (h : ict.Stands (.header got))
    (hc : (Cursor.header got).Proper ipcFormat) (wantFd : Bool) (n : ℕ) :
    (ict.ipcCtRead wantFd (List.replicate (n + 1) .eof)).1 ≠ none := by
  have hlt : got.length < headerSize := hc
  have hcarries : ¬CarriesOn (.header got) .eof := by
    have hstep : Cursor.step ipcFormat (.header got) [] = .header got := by
      rw [Cursor.step, List.append_nil]
      exact if_pos hlt
    simp [CarriesOn, RecvMsg.eof, bytesOf, hstep, Cursor.inPayload]
  have hresult := turn_result h hc (r := .eof) (Nat.zero_le _) wantFd
  rw [List.replicate_succ, ipcCtRead_cons]
  cases hret : (ict.turn wantFd .eof).1 with
  | none => exact absurd (hresult.mp hret) hcarries
  | some b => simp

/-- A payload of size zero is complete at once. -/
theorem eof_elsewhere {ict : IpcCt T} {c : Cursor UInt8} (h : ict.Stands c)
    (hc : c.Proper ipcFormat) (hmissing : c.missing = 0) (wantFd : Bool) :
    (ict.ipcCtRead wantFd (List.replicate 2 .eof)).1 ≠ none := by
  cases c with
  | header got => exact eof_in_header h hc wantFd 1
  | payload header size ps =>
    have hnone := (turn_result h hc (r := .eof) (Nat.zero_le _) wantFd).mpr (Or.inl rfl)
    obtain ⟨hstands, hproper⟩ := turn_stands h hc wantFd (r := .eof)
      (Nat.zero_le _) (by simp [hnone])
    have hfresh : advance (.payload header size ps) .eof = .header [] := by
      have hle : size ≤ ps.flatten.length := Nat.le_of_sub_eq_zero hmissing
      have hsame : (ps ++ [([] : Bytes)]).flatten.length = ps.flatten.length := by simp
      simp only [advance, RecvMsg.eof, bytesOf, List.map_nil, Cursor.step, hsame]
      exact if_neg (by omega)
    rw [hfresh] at hstands hproper
    rw [List.replicate_succ, ipcCtRead_cons, hnone]
    exact eof_in_header hstands hproper wantFd 0
  | refused => exact absurd h id

/-- One call of `ipc_ct_read` returns unless the stream ends inside a payload. -/
theorem ipcCtRead_returns_iff {ict : IpcCt T} {c : Cursor UInt8} (h : ict.Stands c)
    (hc : c.Proper ipcFormat) (wantFd : Bool) {rs : List RecvMsg} (hfits : ict.Fits wantFd rs) :
    (∃ n, (ict.ipcCtRead wantFd (rs ++ List.replicate n .eof)).1 ≠ none) ↔
      ¬EndsInPayload c rs := by
  induction rs generalizing ict c with
  | nil =>
    simp only [List.nil_append, EndsInPayload, Meets, run_nil, true_and]
    by_cases hmissing : 0 < c.missing
    · simp [eof_in_payload h hc hmissing wantFd, hmissing]
    · exact ⟨fun _ => hmissing, fun _ => ⟨2, eof_elsewhere h hc (by omega) wantFd⟩⟩
  | cons r rs ih =>
    have hresult := turn_result h hc hfits.1 wantFd
    simp only [List.cons_append, ipcCtRead_cons]
    by_cases hcarries : CarriesOn c r
    · have hnone := hresult.mpr hcarries
      obtain ⟨hstands, hproper⟩ := turn_stands h hc wantFd hfits.1 (by simp [hnone])
      rw [hnone]
      simp only [ih hstands hproper hfits.2, EndsInPayload, Meets, hcarries, true_and, run_cons]
    · cases hret : (ict.turn wantFd r).1 with
      | none => exact absurd (hresult.mp hret) hcarries
      | some b => simp [EndsInPayload, Meets, hcarries]

def brokenOff : List RecvMsg := [plain [0, 2, 0, 0, 0], plain [123]]

/-- The peer is gone, and the call never returns. -/
theorem brokenOff_never_returns :
    ¬∃ n, ((ipcCtInit emptyObjects).ipcCtRead false
      (brokenOff ++ List.replicate n .eof)).1 ≠ none := by
  rintro ⟨n, hn⟩
  apply hn
  have hstands : (run (fun ict r => (ict.turn false r).2.1) (ipcCtInit emptyObjects)
      brokenOff).Stands (.payload [0, 2, 0, 0, 0] 2 [[123]]) := ⟨rfl, rfl, rfl, rfl⟩
  exact eof_in_payload hstands ⟨rfl, rfl, Or.inr (by decide)⟩ (by decide) false n

/-- A whole message and the end of the stream make the call return. -/
theorem halvedObject_returns : ∃ n, ((ipcCtInit emptyObjects).ipcCtRead false
    (halvedObject ++ List.replicate n .eof)).1 ≠ none := by
  have hfits : (ipcCtInit emptyObjects).Fits false halvedObject :=
    ⟨by decide, by decide, by decide, trivial⟩
  exact (ipcCtRead_returns_iff (ipcCtInit_stands emptyObjects) (Cursor.proper_fresh ipcFormat)
    false hfits).mpr fun h => absurd h.2 (by decide)

end Swayclip
