import Mathlib.Data.Nat.Basic
import Mathlib.Order.Basic
import Swayclip.Ipc.Reader

/-! # What the reader delivers

The reader feeds the tokener with the pieces of a payload as they come in and restarts it
after every verdict. Frame by frame this is a scan of the pieces, which agrees with parsing
the whole payload once unless a value turns up in the pieces after the first verdict.
-/

namespace Swayclip
open Library.Frames Library.Incremental Library.Runs

variable {V : Type*} {T : JsonTokener V}

namespace IpcCt

/-! ## One turn of the loop -/

def fdAfter (wantFd : Bool) (cells : List Cell) (ict : IpcCt T) : Option ℕ :=
  (ict.ioRecv wantFd cells).scmFd

theorem turn_header {ict : IpcCt T} {got : Bytes} (h : ict.Stands (.header got))
    {cells : List Cell} (hfits : got.length + cells.length ≤ headerSize) (wantFd : Bool) :
    match Cursor.opened ipcFormat (got ++ bytesOf cells) with
    | .refused => ∃ ict', ict.turn wantFd (.data cells) = (some false, ict', [])
    | .payload header n ps => ∃ ict' : IpcCt T,
        ict.turn wantFd (.data cells) = (none, ict', []) ∧
        ict'.Stands (.payload header n ps) ∧ ict'.scmFd = ict.fdAfter wantFd cells
    | .header got' => ∃ ict' : IpcCt T,
        ict.turn wantFd (.data cells) = (some true, ict', []) ∧
        ict'.Stands (.header got') ∧ ict'.scmFd = ict.fdAfter wantFd cells := by
  obtain ⟨hheader, hsize, hbuf, htok⟩ := h
  have hoff : headerSize - (headerSize - got.length) = got.length := by omega
  have hrecv : ict.ioRecv wantFd cells = { ict with
      buf := got ++ bytesOf cells
      scmFd := ict.fdAfter wantFd cells } := by
    simp [ioRecv, fdAfter, hheader, hsize, hoff, hbuf]
  have hturn : ict.turn wantFd (.data cells) =
      (ict.ioRecv wantFd cells).readHeader cells.length := by
    simp only [turn]
    rw [hrecv, if_pos hheader]
  have hleft : headerSize - got.length - cells.length =
      headerSize - (got ++ bytesOf cells).length := by
    rw [List.length_append, bytesOf_length]
    omega
  rw [hturn, hrecv]
  simp only [readHeader, hsize, hleft]
  unfold Cursor.opened
  by_cases hlt : (got ++ bytesOf cells).length < headerSize
  · rw [if_pos (show _ < ipcFormat.headerSize from hlt), if_pos (by omega)]
    exact ⟨_, rfl, ⟨hheader, rfl, List.take_length, htok⟩, rfl⟩
  · rw [if_neg (show ¬_ < ipcFormat.headerSize from hlt), if_neg (by omega)]
    have hlen : (got ++ bytesOf cells).length = headerSize := by
      rw [List.length_append, bytesOf_length] at hlt ⊢
      omega
    have hfield : ((got ++ bytesOf cells).drop 1).take 4 = (got ++ bytesOf cells).drop 1 := by
      apply List.take_of_length_le
      rw [List.length_drop, hlen]
      decide
    rw [hfield]
    simp only [ipcFormat]
    by_cases hmax : readUint32 ((got ++ bytesOf cells).drop 1) > maxPayload
    · rw [if_pos hmax, if_pos hmax]
      exact ⟨_, rfl⟩
    · rw [if_neg hmax, if_neg hmax]
      exact ⟨_, rfl, ⟨rfl, rfl, rfl, htok⟩, rfl⟩

/-- The tokener's verdict decides what is delivered and who keeps the descriptor. -/
theorem parseText_eq (text : Bytes) (ict : IpcCt T) :
    ict.parseText text = (none, { ict with
        scmFd := if (T.parse ict.tokener text).value?.isSome then none else ict.scmFd
        tokener := T.next ict.tokener text },
      (T.parse ict.tokener text).value?.toList.map fun v => ⟨ict.pendingType, v, ict.scmFd⟩) := by
  unfold parseText Parser.next
  cases T.parse ict.tokener text <;> rfl

/-- What the tokener is given for a piece: a NUL goes behind the last one. -/
def handed (n : ℕ) (ps : List Bytes) (p : Bytes) : Bytes :=
  if (ps ++ [p]).flatten.length < n then p else p ++ [0]

theorem turn_payload {ict : IpcCt T} {header : Bytes} {n : ℕ} {ps : List Bytes}
    (h : ict.Stands (.payload header n ps)) (cells : List Cell) (wantFd : Bool) :
    ∃ ict' : IpcCt T, ict.turn wantFd (.data cells) = (none, ict',
        (T.parse ict.tokener (handed n ps (bytesOf cells))).value?.toList.map
          fun v => ⟨header.headD 0, v, ict.fdAfter wantFd cells⟩) ∧
      ict'.Stands (Cursor.step ipcFormat (.payload header n ps) (bytesOf cells)) ∧
      ict'.scmFd = if (T.parse ict.tokener (handed n ps (bytesOf cells))).value?.isSome then none
        else ict.fdAfter wantFd cells := by
  obtain ⟨hheader, htype, hsize, htok⟩ := h
  have hrecv : ict.ioRecv wantFd cells = { ict with
      buf := bytesOf cells
      scmFd := ict.fdAfter wantFd cells } := by
    simp [ioRecv, fdAfter, hheader]
  have hturn : ict.turn wantFd (.data cells) =
      (ict.ioRecv wantFd cells).readPayload cells.length := by
    simp only [turn]
    rw [hrecv, if_neg (by simpa using hheader)]
  have htake : (bytesOf cells).take cells.length = bytesOf cells := by
    rw [← bytesOf_length, List.take_length]
  have hlen : (ps ++ [bytesOf cells]).flatten.length = ps.flatten.length + cells.length := by
    rw [List.flatten_append, List.flatten_singleton, List.length_append, bytesOf_length]
  have hnext : T.next ict.tokener (bytesOf cells) =
      (ps ++ [bytesOf cells]).foldl T.next T.start := by
    rw [List.foldl_append, ← htok]
    rfl
  rw [hturn, hrecv]
  simp only [readPayload, hsize, htake]
  by_cases hlt : (ps ++ [bytesOf cells]).flatten.length < n
  · have hhanded : handed n ps (bytesOf cells) = bytesOf cells := if_pos hlt
    have hstep : Cursor.step ipcFormat (.payload header n ps) (bytesOf cells) =
        .payload header n (ps ++ [bytesOf cells]) := if_pos hlt
    have hleft : n - ps.flatten.length - cells.length =
        n - (ps ++ [bytesOf cells]).flatten.length := by omega
    rw [if_neg (by omega), hhanded, hstep]
    simp only [parseText_eq, htype]
    exact ⟨_, rfl, ⟨hheader, rfl, hleft, hnext⟩, rfl⟩
  · have hhanded : handed n ps (bytesOf cells) = bytesOf cells ++ [0] := if_neg hlt
    have hstep : Cursor.step ipcFormat (.payload header n ps) (bytesOf cells) = .fresh :=
      if_neg hlt
    rw [if_pos (by omega), hhanded, hstep]
    simp only [parseText_eq, ipcCtReset, htype]
    exact ⟨_, rfl, ⟨rfl, rfl, rfl, Parser.next_concat_mark _ _⟩, rfl⟩

/-- What `recvmsg` is asked for stays within the part being read. -/
theorem fits_cursor {ict : IpcCt T} {c : Cursor UInt8} (h : ict.Stands c)
    (hc : c.Proper ipcFormat) {cells : List Cell} (hlen : cells.length ≤ ict.recvLen) :
    c.Fits ipcFormat (bytesOf cells) := by
  have hsize : cells.length ≤ ict.pendingSize := hlen.trans (Nat.min_le_right ..)
  cases c with
  | header got =>
    have hgot : got.length < headerSize := hc
    change got.length + (bytesOf cells).length ≤ headerSize
    rw [h.2.1] at hsize
    rw [bytesOf_length]
    omega
  | payload header n ps =>
    have hle : ps.flatten.length ≤ n := by
      obtain rfl | hlt := hc.2.2
      · exact Nat.zero_le n
      · exact hlt.le
    rw [h.2.2.1] at hsize
    change (ps ++ [bytesOf cells]).flatten.length ≤ n
    rw [List.flatten_append, List.flatten_singleton, List.length_append, bytesOf_length]
    omega
  | refused => trivial

end IpcCt

/-! ## Frame by frame -/

/-- The texts that the tokener is given for a frame. -/
def frameTexts (f : Frame UInt8) : List Bytes :=
  if f.Whole then f.pieces.dropLast ++ (f.pieces.getLast?.map (fun p => p ++ [0])).toList
  else f.pieces

/-- The messages found while the pieces of a frame come in. -/
def frameMessages (T : JsonTokener V) (f : Frame UInt8) : List (UInt8 × V) :=
  (T.scan T.start (frameTexts f)).map (fun v => (f.header.headD 0, v))

/-- The messages found so far in the frame that is being read. -/
def foundSoFar (T : JsonTokener V) : Cursor UInt8 → List (UInt8 × V)
  | .payload header _ ps => (T.scan T.start ps).map (fun v => (header.headD 0, v))
  | _ => []

def IpcMessage.content (msg : IpcMessage V) : UInt8 × V := (msg.type, msg.payload)

theorem frameTexts_whole (header : Bytes) {n : ℕ} {ps : List Bytes} {p : Bytes}
    (h : (ps ++ [p]).flatten.length = n) :
    frameTexts ⟨header, n, ps ++ [p]⟩ = ps ++ [p ++ [0]] := by
  have hwhole : (Frame.mk header n (ps ++ [p])).Whole := h
  simp [frameTexts, hwhole]

theorem trailing_messages {c : Cursor UInt8} (hc : c.Proper ipcFormat) :
    c.trailing.flatMap (frameMessages T) = foundSoFar T c := by
  cases c with
  | header got => rfl
  | payload header n ps =>
    have htexts : frameTexts ⟨header, n, ps⟩ = ps := by
      obtain rfl | hlt := hc.2.2
      · simp [frameTexts]
      · exact if_neg hlt.ne
    simp [Cursor.trailing, frameMessages, foundSoFar, htexts]
  | refused => rfl

/-- A piece of payload adds what is found in it to what was found before. -/
theorem found_step {header : Bytes} {n : ℕ} {ps : List Bytes} {p : Bytes}
    (hfits : (ps ++ [p]).flatten.length ≤ n) :
    (Cursor.completed (.payload header n ps) p).flatMap (frameMessages T) ++
        foundSoFar T (Cursor.step ipcFormat (.payload header n ps) p) =
      foundSoFar T (.payload header n ps) ++
        (T.parse (ps.foldl T.next T.start) (IpcCt.handed n ps p)).value?.toList.map
          (fun v => (header.headD 0, v)) := by
  have hscan : ∀ text, T.scan T.start (ps ++ [text]) =
      T.scan T.start ps ++ (T.parse (ps.foldl T.next T.start) text).value?.toList := by
    intro text
    rw [Parser.scan_append]
    simp [Parser.scan]
  by_cases hlt : (ps ++ [p]).flatten.length < n
  · have hhanded : IpcCt.handed n ps p = p := if_pos hlt
    simp only [Cursor.completed, Cursor.step, if_pos hlt, List.flatMap_nil, List.nil_append,
      foundSoFar, hscan, hhanded, List.map_append]
  · have hhanded : IpcCt.handed n ps p = p ++ [0] := if_neg hlt
    have htexts := frameTexts_whole header (le_antisymm hfits (not_lt.mp hlt))
    simp only [Cursor.completed, Cursor.step, if_neg hlt, List.flatMap_cons, List.flatMap_nil,
      List.append_nil, foundSoFar, frameMessages, htexts, hscan, hhanded, List.map_append,
      Cursor.fresh]

/-- What `ipc_ct_read` returns on a piece, if it does. -/
def readResult : Cursor UInt8 → Bytes → Option Bool
  | .header got, p =>
    match Cursor.opened ipcFormat (got ++ p) with
    | .header _ => some true
    | .payload .. => none
    | .refused => some false
  | .payload .., _ => none
  | .refused, _ => some false

/-- A turn of the loop follows the cursor. -/
theorem turn_data {ict : IpcCt T} {c : Cursor UInt8} (h : ict.Stands c)
    (hc : c.Proper ipcFormat) {cells : List Cell} (hlen : cells.length ≤ ict.recvLen)
    (wantFd : Bool) :
    ∃ ict' msgs, ict.turn wantFd (.data cells) = (readResult c (bytesOf cells), ict', msgs) ∧
      (readResult c (bytesOf cells) ≠ some false →
        ict'.Stands (c.step ipcFormat (bytesOf cells))) ∧
      (c.completed (bytesOf cells)).flatMap (frameMessages T) ++
          foundSoFar T (c.step ipcFormat (bytesOf cells)) =
        foundSoFar T c ++ msgs.map IpcMessage.content := by
  have hpiece := IpcCt.fits_cursor h hc hlen
  cases c with
  | header got =>
    have hroom : got.length + cells.length ≤ headerSize := by
      rw [← bytesOf_length]
      exact hpiece
    have hspec := IpcCt.turn_header h hroom wantFd
    simp only [readResult, Cursor.step]
    cases hopen : Cursor.opened ipcFormat (got ++ bytesOf cells) with
    | header got' =>
      rw [hopen] at hspec
      obtain ⟨ict', hturn, hstands, -⟩ := hspec
      exact ⟨ict', [], hturn, fun _ => hstands, rfl⟩
    | payload header n ps =>
      obtain ⟨-, rfl, -⟩ := Cursor.opened_payload hopen
      rw [hopen] at hspec
      obtain ⟨ict', hturn, hstands, -⟩ := hspec
      exact ⟨ict', [], hturn, fun _ => hstands, rfl⟩
    | refused =>
      rw [hopen] at hspec
      obtain ⟨ict', hturn⟩ := hspec
      exact ⟨ict', [], hturn, fun hne => absurd rfl hne, rfl⟩
  | payload header n ps =>
    obtain ⟨ict', hturn, hstands, -⟩ := IpcCt.turn_payload h cells wantFd
    refine ⟨ict', _, hturn, fun _ => hstands, ?_⟩
    rw [found_step hpiece, h.2.2.2]
    simp [IpcMessage.content, Function.comp_def]
  | refused => exact absurd h id

/-- Only a refused header makes `ipc_ct_read` fail. -/
theorem step_refused_iff {c : Cursor UInt8} (hc : c ≠ .refused) (p : Bytes) :
    c.step ipcFormat p = .refused ↔ readResult c p = some false := by
  cases c with
  | header got =>
    simp only [readResult, Cursor.step]
    cases Cursor.opened ipcFormat (got ++ p) <;> simp
  | payload header n ps =>
    simp only [readResult, Cursor.step, Cursor.fresh]
    split <;> simp
  | refused => exact absurd rfl hc

/-- The connection delivers what is found frame by frame. -/
theorem cut_eq_serve {ict : IpcCt T} {c : Cursor UInt8} (h : ict.Stands c)
    (hc : c.Proper ipcFormat) (wantFd : Bool) {rs : List RecvMsg} (hfits : ict.Fits wantFd rs) :
    (cut ipcFormat c (receivedPieces rs)).flatMap (frameMessages T) =
      foundSoFar T c ++ (ict.serve wantFd rs).map IpcMessage.content := by
  induction rs generalizing ict c with
  | nil => simpa [receivedPieces, cut, IpcCt.serve] using trailing_messages hc
  | cons r rs ih =>
    cases r with
    | eintr => simpa [receivedPieces, IpcCt.serve, IpcCt.turn] using ih h hc hfits.2
    | eagain => simpa [receivedPieces, IpcCt.serve, IpcCt.turn] using ih h hc hfits.2
    | error =>
      simpa [receivedPieces, cut, IpcCt.serve, IpcCt.turn] using trailing_messages hc
    | data cells =>
      have hproper := Cursor.step_proper hc (IpcCt.fits_cursor h hc hfits.1)
      have hne : c ≠ .refused := by
        rintro rfl
        exact h
      obtain ⟨ict', msgs, hturn, hstands, hfound⟩ := turn_data h hc hfits.1 wantFd
      have htail := hfits.2
      rw [receivedPieces, cut, List.flatMap_append, IpcCt.serve]
      simp only [hturn] at htail ⊢
      by_cases hret : readResult c (bytesOf cells) = some false
      · have hstep := (step_refused_iff hne _).mpr hret
        rw [hstep] at hfound ⊢
        rw [cut_refused, hret, ← hfound]
        rfl
      · have hrest := ih (hstands hret) hproper htail
        rw [hrest, ← List.append_assoc, hfound, List.append_assoc]
        split
        · rename_i heq
          exact absurd (congrArg Prod.fst heq) hret
        · rename_i heq
          obtain ⟨-, rfl, rfl⟩ := heq
          rw [List.map_append]

/-- What is received stays within the parts of the frames. -/
theorem receivedPieces_fits {ict : IpcCt T} {c : Cursor UInt8} (h : ict.Stands c)
    (hc : c.Proper ipcFormat) {wantFd : Bool} {rs : List RecvMsg} (hfits : ict.Fits wantFd rs) :
    Meets (Cursor.step ipcFormat) (Cursor.Fits ipcFormat) c (receivedPieces rs) := by
  induction rs generalizing ict c with
  | nil => trivial
  | cons r rs ih =>
    cases r with
    | eintr => exact ih h hc hfits.2
    | eagain => exact ih h hc hfits.2
    | error => trivial
    | data cells =>
      have hpiece := IpcCt.fits_cursor h hc hfits.1
      refine ⟨hpiece, ?_⟩
      have hne : c ≠ .refused := by
        rintro rfl
        exact h
      obtain ⟨ict', msgs, hturn, hstands, -⟩ := turn_data h hc hfits.1 wantFd
      have htail := hfits.2
      simp only [hturn] at htail
      by_cases hret : readResult c (bytesOf cells) = some false
      · rw [(step_refused_iff hne _).mpr hret]
        exact fits_refused _
      · exact ih (hstands hret) (Cursor.step_proper hc hpiece) htail

/-! ## Against parsing each payload once -/

/-- The message of a whole frame, given by its header and its payload. -/
def frameMessage (T : JsonTokener V) (f : Bytes × Bytes) : Option (UInt8 × V) :=
  (T.read (f.2 ++ [0])).map (fun v => (f.1.headD 0, v))

/-- The reference: cut the stream into frames and parse each whole payload once. -/
def reference (T : JsonTokener V) (stream : Bytes) : List (UInt8 × V) :=
  (whole ipcFormat stream).filterMap (frameMessage T)

/-- The texts in which nothing more should be found: those after the first verdict, or all
of them when the payload never becomes complete. -/
def beyondVerdict (T : JsonTokener V) (f : Frame UInt8) : List Bytes :=
  if f.Whole then T.leftover T.start (frameTexts f) else f.pieces

/-- No value turns up where nothing more should be found. -/
def Tidy (T : JsonTokener V) (f : Frame UInt8) : Prop :=
  T.scan T.start (beyondVerdict T f) = []

instance [DecidableEq V] (f : Frame UInt8) : Decidable (Tidy T f) :=
  inferInstanceAs (Decidable (_ = _))

theorem frameTexts_flatten {f : Frame UInt8} (hwhole : f.Whole) (hpieces : f.pieces ≠ []) :
    (frameTexts f).flatten = f.payload ++ [0] := by
  obtain ⟨ps, p, hps⟩ := List.eq_nil_or_concat f.pieces |>.resolve_left hpieces
  simp [frameTexts, hwhole, Frame.payload, hps]

theorem frameMessages_eq (T : JsonTokener V) (f : Frame UInt8) :
    frameMessages T f =
      (if f.Whole then frameMessage T (f.header, f.payload) else none).toList ++
        (T.scan T.start (beyondVerdict T f)).map (fun v => (f.header.headD 0, v)) := by
  unfold frameMessages beyondVerdict
  by_cases hwhole : f.Whole
  · rw [if_pos hwhole, if_pos hwhole]
    by_cases hpieces : f.pieces = []
    · have hnone : T.read [0] = none := by
        unfold Parser.read
        cases h : T.parse T.start [0] with
        | value v => exact absurd h (T.start_mark v)
        | more s => rfl
        | bad => rfl
      simp [frameTexts, hwhole, frameMessage, Frame.payload, hpieces, hnone, Parser.scan,
        Parser.leftover]
    · rw [Parser.scan_eq, frameTexts_flatten hwhole hpieces, List.map_append, frameMessage]
      congr 1
      unfold Parser.read
      cases (T.parse T.start (f.payload ++ [0])).value? <;> rfl
  · rw [if_neg hwhole, if_neg hwhole, frameTexts, if_neg hwhole]
    rfl

/-- Lists that are put together side by side are equal when nothing is added anywhere. -/
theorem flatMap_append_eq_iff {α β : Type*} {a b : α → List β} {xs : List α} :
    xs.flatMap (fun x => a x ++ b x) = xs.flatMap a ↔ ∀ x ∈ xs, b x = [] := by
  constructor
  · intro h
    have hlen := congrArg List.length h
    simp only [List.length_flatMap, List.length_append] at hlen
    clear h
    induction xs with
    | nil => simp
    | cons x xs ih =>
      have hle : ∀ ys : List α, (ys.map (fun y => (a y).length)).sum ≤
          (ys.map (fun y => (a y).length + (b y).length)).sum := by
        intro ys
        induction ys with
        | nil => simp
        | cons y ys ihy =>
          simp only [List.map_cons, List.sum_cons]
          omega
      simp only [List.map_cons, List.sum_cons] at hlen
      have hxs := hle xs
      rw [List.forall_mem_cons]
      exact ⟨List.eq_nil_of_length_eq_zero (by omega), ih (by omega)⟩
  · intro h
    refine List.flatMap_congr fun x hx => ?_
    rw [h x hx, List.append_nil]

theorem reference_eq (T : JsonTokener V) {rs : List RecvMsg} {wantFd : Bool}
    (hfits : (ipcCtInit T).Fits wantFd rs) :
    reference T (receivedPieces rs).flatten =
      (cut ipcFormat .fresh (receivedPieces rs)).flatMap
        fun f => (if f.Whole then frameMessage T (f.header, f.payload) else none).toList := by
  have hpieces := receivedPieces_fits (ipcCtInit_stands T) (Cursor.proper_fresh ipcFormat) hfits
  have hcut := cut_whole (Cursor.proper_fresh ipcFormat) (by simp [Cursor.fresh]) hpieces
  rw [Cursor.fresh, Cursor.read, List.nil_append] at hcut
  rw [reference, ← hcut, List.filterMap_map, List.filterMap_filter, Cursor.fresh,
    ← List.filterMap_eq_flatMap_toList]
  refine List.filterMap_congr fun f _ => ?_
  by_cases hwhole : f.Whole <;> simp [hwhole]

/-- The connection delivers what parsing each payload once gives, exactly when every frame
is tidy. -/
theorem serve_eq_reference_iff (T : JsonTokener V) (wantFd : Bool) (rs : List RecvMsg)
    (hfits : (ipcCtInit T).Fits wantFd rs) :
    ((ipcCtInit T).serve wantFd rs).map IpcMessage.content =
        reference T (receivedPieces rs).flatten ↔
      ∀ f ∈ cut ipcFormat .fresh (receivedPieces rs), Tidy T f := by
  have hserve := cut_eq_serve (ipcCtInit_stands T) (Cursor.proper_fresh ipcFormat) wantFd hfits
  have hfresh : foundSoFar T .fresh = [] := rfl
  rw [hfresh, List.nil_append] at hserve
  rw [reference_eq T hfits, ← hserve]
  simp only [funext (frameMessages_eq T), flatMap_append_eq_iff, List.map_eq_nil_iff, Tidy]

/-- How JSON texts without anything but empty objects are read. -/
def emptyObject (opened : Bool) (c : UInt8) : Parsed Bool Unit :=
  if c = 32 then .more opened
  else if !opened ∧ c = 123 then .more true
  else if opened ∧ c = 125 then .value ()
  else .bad

def emptyObjects : JsonTokener Unit :=
  Parser.ofFeed false emptyObject (by decide) (by simp [emptyObject])

def plain (bytes : Bytes) : RecvMsg := .data (bytes.map fun b => (b, none))

/-- One frame whose payload is `{}{}`, received in two pieces. -/
def twoObjects : List RecvMsg :=
  [plain [0, 4, 0, 0, 0], plain [123, 125], plain [123, 125]]

theorem twoObjects_fits : (ipcCtInit emptyObjects).Fits false twoObjects :=
  ⟨by decide, by decide, by decide, trivial⟩

theorem reference_twoObjects :
    reference emptyObjects (receivedPieces twoObjects).flatten = [(0, ())] := by
  have hnil : whole ipcFormat [] = [] := whole_of_short (by decide)
  have hcons : whole ipcFormat ([0, 4, 0, 0, 0] ++ ([123, 125, 123, 125] ++ [])) =
      ([0, 4, 0, 0, 0], [123, 125, 123, 125]) :: whole ipcFormat [] := whole_cons [] rfl rfl
  rw [hnil] at hcons
  change whole ipcFormat [0, 4, 0, 0, 0, 123, 125, 123, 125] = _ at hcons
  change (whole ipcFormat [0, 4, 0, 0, 0, 123, 125, 123, 125]).filterMap _ = _
  rw [hcons]
  rfl

/-- The tokener is done after the first piece, and finds another value in the second. -/
theorem twoObjects_delivered_twice :
    (ipcCtInit emptyObjects).Fits false twoObjects ∧
      ((ipcCtInit emptyObjects).serve false twoObjects).map IpcMessage.content ≠
        reference emptyObjects (receivedPieces twoObjects).flatten := by
  refine ⟨twoObjects_fits, ?_⟩
  rw [reference_twoObjects]
  decide

def halvedObject : List RecvMsg := [plain [0, 2, 0, 0, 0], plain [123], plain [125]]

theorem halvedObject_delivered :
    ((ipcCtInit emptyObjects).serve false halvedObject).map IpcMessage.content =
      reference emptyObjects (receivedPieces halvedObject).flatten :=
  (serve_eq_reference_iff emptyObjects false halvedObject
    ⟨by decide, by decide, by decide, trivial⟩).mpr (by decide)

end Swayclip
