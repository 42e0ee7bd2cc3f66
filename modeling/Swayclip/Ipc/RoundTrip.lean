import Swayclip.Ipc.Framing
import Swayclip.Ipc.Writer

/-! # From one end of a connection to the other

A writer queues messages and sends, the socket carries bytes and descriptors in order, and
a reader receives. However sending and receiving are cut up, the reader's callback sees the
messages in the order in which they were queued, each with its own descriptor.
-/

namespace Swayclip
open Library.Frames Library.Incremental Library.Runs

structure Outgoing (V : Type*) where
  type : UInt8
  payload : V
  scmFd : Option ℕ

variable {V : Type*} (T : JsonTokener V) (text : V → Bytes)

/-- The socket between a writer and a reader, and the messages that the reader's callback
has been given. -/
structure Link where
  queue : List IpcWrite
  wire : List Cell
  ict : IpcCt T
  delivered : List (IpcMessage V)
  failed : Bool

/-- What happens at one end: a message is queued, or one call of `ipc_ct_write` or of
`ipc_ct_read` is made, given by what the socket answers. -/
inductive LinkInput (V : Type*) where
  | enqueue (m : Outgoing V)
  | write (os : List SendMsg)
  | read (rs : List RecvMsg)

def receivedCells : List RecvMsg → List Cell
  | [] => []
  | .data cells :: rs => cells ++ receivedCells rs
  | _ :: rs => receivedCells rs

namespace Link

variable {T}

def start (T : JsonTokener V) : Link T := ⟨[], [], ipcCtInit T, [], false⟩

/-- `text` is what `json_object_to_json_string_length` yields. -/
def step (wantFd : Bool) (s : Link T) : LinkInput V → Link T
  | .enqueue m =>
    { s with queue := ipcCtWriteMsg m.type (some (text m.payload)) m.scmFd s.queue }
  | .write os =>
    let (ret, queue, cells) := ipcCtWrite s.queue os
    { s with
      queue := queue
      wire := s.wire ++ cells
      failed := s.failed || ret = some (false, false) }
  | .read rs =>
    let (ret, ict, msgs, _) := s.ict.ipcCtRead wantFd rs
    { s with
      wire := s.wire.drop (receivedCells rs).length
      ict := ict
      delivered := s.delivered ++ msgs
      failed := s.failed || ret = some false }

end Link

/-- The message is not too large, and its text is one document for the tokener. -/
structure Sendable (m : Outgoing V) : Prop where
  pos : 1 ≤ (text m.payload).length
  le : (text m.payload).length ≤ maxPayload
  document : T.Document (text m.payload) m.payload

variable {T} in
/-- What a socket that works can answer: `sendmsg` sends something or is put off, `recvmsg`
yields the next bytes on the wire, no more than it was asked for, or is put off. -/
def Link.Possible (wantFd : Bool) (s : Link T) : LinkInput V → Prop
  | .enqueue m => Sendable T text m
  | .write os => ∀ o ∈ os, o ≠ .error ∧ o ≠ .sent 0
  | .read rs => (∀ r ∈ rs, r ≠ .error) ∧ s.ict.Fits wantFd rs ∧ receivedCells rs <+: s.wire ∧
      (s.ict.ipcCtRead wantFd rs).2.2.2 = []

def LinkInput.queued : LinkInput V → List (Outgoing V)
  | .enqueue m => [m]
  | _ => []

variable {T} {text}

/-- The bytes of a message with its descriptor. -/
def frameCells (text : V → Bytes) (m : Outgoing V) : List Cell :=
  withFd m.scmFd (messageBytes m.type (text m.payload))

/-- What the reader's callback should be given for a message. -/
def Outgoing.received (wantFd : Bool) (m : Outgoing V) : IpcMessage V :=
  ⟨m.type, m.payload, if wantFd then m.scmFd else none⟩

/-! ## Headers -/

theorem readUint32_uint32Bytes {n : ℕ} (h : n < 4294967296) : readUint32 (uint32Bytes n) = n := by
  simp only [uint32Bytes, readUint32, UInt8.toNat_ofNat']
  omega

def messageHeader (type : UInt8) (size : ℕ) : Bytes := type :: uint32Bytes size

theorem messageBytes_eq (type : UInt8) (bytes : Bytes) :
    messageBytes type bytes = messageHeader type bytes.length ++ bytes := rfl

theorem messageHeader_length (type : UInt8) (size : ℕ) :
    (messageHeader type size).length = headerSize := rfl

theorem payloadSize_messageHeader (type : UInt8) {size : ℕ} (h : size ≤ maxPayload) :
    ipcFormat.payloadSize (messageHeader type size) = some size := by
  have hread : readUint32 (uint32Bytes size) = size := by
    apply readUint32_uint32Bytes
    unfold maxPayload at h
    omega
  simp only [ipcFormat, messageHeader, List.drop_succ_cons, List.drop_zero, hread]
  rw [if_neg (by omega)]

/-! ## The reader inside a message -/

/-- The reader has received `part` of the first of the messages still to come. -/
structure Reading (text : V → Bytes) (wantFd : Bool) (rest : List (Outgoing V))
    (part : List Cell) (ict : IpcCt T) : Prop where
  cursor : ∃ c, ict.Stands c ∧ c.Proper ipcFormat ∧ c.read = bytesOf part
  inFirst : ∀ m ∈ rest.head?, part <+: frameCells text m ∧ part ≠ frameCells text m ∧
    ict.scmFd = if wantFd ∧ part ≠ [] then m.scmFd else none
  atRest : rest = [] → part = [] ∧ ict.scmFd = none

theorem not_begun {wantFd : Bool} {ict : IpcCt T} (hfd : ict.scmFd = none) (m : Outgoing V) :
    [] <+: frameCells text m ∧ [] ≠ frameCells text m ∧
      ict.scmFd = if wantFd ∧ ([] : List Cell) ≠ [] then m.scmFd else none := by
  refine ⟨List.nil_prefix, ?_, by simpa using hfd⟩
  simp [frameCells, messageBytes, withFd]

theorem Reading.fresh {wantFd : Bool} {ict : IpcCt T} (h : ict.Stands .fresh)
    (hfd : ict.scmFd = none) (rest : List (Outgoing V)) : Reading text wantFd rest [] ict where
  cursor := ⟨.fresh, h, Cursor.proper_fresh ipcFormat, rfl⟩
  inFirst m _ := not_begun hfd m
  atRest _ := ⟨rfl, hfd⟩

/-- The first cell carries the descriptor, and it is taken when the first cell is. -/
theorem fdAfter_eq {wantFd : Bool} {m : Outgoing V} {part cells : List Cell} {ict : IpcCt T}
    (hpre : part ++ cells <+: frameCells text m)
    (hfd : ict.scmFd = if wantFd ∧ part ≠ [] then m.scmFd else none) :
    ict.fdAfter wantFd cells = if wantFd ∧ part ++ cells ≠ [] then m.scmFd else none := by
  have hplain : ∀ cs : List Cell, (∀ c ∈ cs, c.2 = none) → cs.findSome? Prod.snd = none := by
    intro cs hcs
    rw [List.findSome?_eq_none_iff]
    exact hcs
  have htail : ∀ c ∈ (frameCells text m).tail, c.2 = none := by
    intro c hc
    obtain ⟨b, -, rfl⟩ := List.mem_map.mp hc
    rfl
  have hhead : (frameCells text m).head? = some (m.type, m.scmFd) := rfl
  simp only [IpcCt.fdAfter, IpcCt.ioRecv, hfd]
  cases part with
  | nil =>
    cases cells with
    | nil => simp
    | cons c cs =>
      rw [List.nil_append] at hpre
      obtain ⟨later, hlater⟩ := hpre
      rw [← hlater] at hhead htail
      obtain rfl : c = (m.type, m.scmFd) := by simpa using hhead
      have hcs : cs.findSome? Prod.snd = none :=
        hplain cs fun c hc => htail c (by simp [hc])
      cases wantFd <;> cases hm : m.scmFd <;> simp [hcs]
  | cons c part =>
    obtain ⟨later, hlater⟩ := hpre
    rw [← hlater] at htail
    have hcells : cells.findSome? Prod.snd = none :=
      hplain cells fun c hc => htail c (by simp [hc])
    cases wantFd <;> cases hm : m.scmFd <;> simp [hcells]

theorem bytesOf_front {m : Outgoing V} {part : List Cell} (hpre : part <+: frameCells text m) :
    bytesOf part <+: messageHeader m.type (text m.payload).length ++ text m.payload := by
  have hmap : bytesOf part <+: bytesOf (frameCells text m) := hpre.map Prod.fst
  rwa [frameCells, bytesOf_withFd, messageBytes_eq] at hmap

/-- A reader inside a message has part of its header, or the header and part of its text. -/
theorem read_prefix {m : Outgoing V} (hm : Sendable T text m) {c : Cursor UInt8}
    (hc : c.Proper ipcFormat) {part : List Cell} (hread : c.read = bytesOf part)
    (hpre : part <+: frameCells text m) (hne : c ≠ .refused) :
    (∃ got, c = .header got ∧ got <+: messageHeader m.type (text m.payload).length) ∨
      ∃ ps, c = .payload (messageHeader m.type (text m.payload).length)
        (text m.payload).length ps ∧ ps.flatten <+: text m.payload := by
  have hbytes := bytesOf_front hpre
  rw [← hread] at hbytes
  cases c with
  | header got =>
    refine Or.inl ⟨got, rfl, ?_⟩
    apply List.prefix_of_prefix_length_le hbytes (List.prefix_append ..)
    rw [messageHeader_length]
    exact Nat.le_of_lt hc
  | payload header n ps =>
    obtain ⟨hlen, hsize, -⟩ := hc
    obtain ⟨later, hlater⟩ := hbytes
    simp only [Cursor.read, List.append_assoc] at hlater
    obtain ⟨rfl, htext⟩ := List.append_inj hlater hlen
    rw [payloadSize_messageHeader m.type hm.le] at hsize
    obtain rfl := Option.some.inj hsize
    exact Or.inr ⟨ps, rfl, later, htext⟩
  | refused => exact absurd rfl hne

theorem frameCells_length (text : V → Bytes) (m : Outgoing V) :
    (frameCells text m).length = headerSize + (text m.payload).length := by
  have := congrArg List.length (bytesOf_withFd m.scmFd (messageBytes m.type (text m.payload)))
  rw [bytesOf_length, messageBytes_eq, List.length_append, messageHeader_length] at this
  exact this

theorem bytesOf_append (xs ys : List Cell) : bytesOf (xs ++ ys) = bytesOf xs ++ bytesOf ys :=
  List.map_append

/-- Inside the header nothing is delivered, and the header is not refused. -/
theorem turn_inside_header (wantFd : Bool) {m : Outgoing V} (hm : Sendable T text m)
    {got : Bytes} {cells : List Cell} {ict : IpcCt T} (hstands : ict.Stands (.header got))
    (hpre : got ++ bytesOf cells <+: messageHeader m.type (text m.payload).length) :
    ∃ ret ict', ict.turn wantFd (.data cells) = (ret, ict', []) ∧ ret ≠ some false ∧
      ict'.scmFd = ict.fdAfter wantFd cells ∧
      ∃ c, ict'.Stands c ∧ c.Proper ipcFormat ∧ c.read = got ++ bytesOf cells := by
  have hle := hpre.length_le
  rw [messageHeader_length] at hle
  have hroom : got.length + cells.length ≤ headerSize := by
    rwa [← bytesOf_length, ← List.length_append]
  have hspec := IpcCt.turn_header hstands hroom wantFd
  have hproper := Cursor.opened_proper (F := ipcFormat) hle
  unfold Cursor.opened at hspec hproper
  by_cases hlt : (got ++ bytesOf cells).length < headerSize
  · rw [if_pos (show _ < ipcFormat.headerSize from hlt)] at hspec hproper
    obtain ⟨ict', hturn, hstands', hfd⟩ := hspec
    exact ⟨_, ict', hturn, by simp, hfd, _, hstands', hproper, rfl⟩
  · have heq : got ++ bytesOf cells = messageHeader m.type (text m.payload).length := by
      apply hpre.eq_of_length
      rw [messageHeader_length]
      omega
    rw [if_neg (show ¬_ < ipcFormat.headerSize from hlt), heq,
      payloadSize_messageHeader m.type hm.le] at hspec hproper
    obtain ⟨ict', hturn, hstands', hfd⟩ := hspec
    exact ⟨_, ict', hturn, by simp, hfd, _, hstands', hproper, by
      simp [Cursor.read, heq]⟩

/-- Inside the text the tokener finds the payload when, and only when, the text is complete. -/
theorem turn_inside_text (wantFd : Bool) {m : Outgoing V} (hm : Sendable T text m)
    {ps : List Bytes} {cells : List Cell} {ict : IpcCt T}
    (hstands : ict.Stands (.payload (messageHeader m.type (text m.payload).length)
      (text m.payload).length ps))
    (hshort : ps.flatten.length < (text m.payload).length)
    (hpre : ps.flatten ++ bytesOf cells <+: text m.payload) :
    ∃ ict' msgs, ict.turn wantFd (.data cells) = (none, ict', msgs) ∧
      ict'.Stands (Cursor.step ipcFormat (.payload
        (messageHeader m.type (text m.payload).length) (text m.payload).length ps)
          (bytesOf cells)) ∧
      if ps.flatten ++ bytesOf cells = text m.payload then
        msgs = [⟨m.type, m.payload, ict.fdAfter wantFd cells⟩] ∧ ict'.scmFd = none
      else msgs = [] ∧ ict'.scmFd = ict.fdAfter wantFd cells := by
  obtain ⟨ict', hturn, hstands', hfd⟩ := IpcCt.turn_payload hstands cells wantFd
  refine ⟨ict', _, hturn, hstands', ?_⟩
  have hflat : (ps ++ [bytesOf cells]).flatten = ps.flatten ++ bytesOf cells := by simp
  obtain ⟨s, hs⟩ := hm.document.undecided ps.flatten ((List.prefix_append ..).trans hpre)
    fun h => by rw [h] at hshort; omega
  have htok : ict.tokener = s := by rw [hstands.2.2.2, Parser.foldl_next_of_more hs]
  have hparse : ∀ xs, T.parse s xs = T.parse T.start (ps.flatten ++ xs) := by
    intro xs
    rw [T.parse_append, hs]
    rfl
  rw [htok, hparse] at hfd ⊢
  split
  · rename_i heq
    have hhanded : IpcCt.handed (text m.payload).length ps (bytesOf cells) =
        bytesOf cells ++ [0] := by
      apply if_neg
      rw [hflat, heq]
      omega
    rw [hhanded, ← List.append_assoc, heq, hm.document.decided] at hfd ⊢
    exact ⟨rfl, hfd⟩
  · rename_i hne
    have hlt : (ps.flatten ++ bytesOf cells).length < (text m.payload).length := by
      have := hpre.length_le
      have := mt hpre.eq_of_length hne
      omega
    have hhanded : IpcCt.handed (text m.payload).length ps (bytesOf cells) = bytesOf cells :=
      if_pos (by rwa [hflat])
    obtain ⟨t, ht⟩ := hm.document.undecided _ hpre hne
    rw [hhanded, ht] at hfd ⊢
    exact ⟨rfl, hfd⟩

/-- What a reader makes of the cells that it receives next: it is given the messages `done`
and goes on with the others. -/
structure Received (text : V → Bytes) (wantFd : Bool) (rest : List (Outgoing V))
    (part : List Cell) (ret : Option Bool) (ict : IpcCt T) (msgs : List (IpcMessage V))
    (done rest' : List (Outgoing V)) (part' : List Cell) : Prop where
  alive : ret ≠ some false
  split : rest = done ++ rest'
  delivered : msgs = done.map (Outgoing.received wantFd)
  consumed : part = done.flatMap (frameCells text) ++ part'
  reading : Reading text wantFd rest' part' ict

section Reader
variable {wantFd : Bool} {rest : List (Outgoing V)} {part cells : List Cell} {ict : IpcCt T}

theorem turn_first_header {m : Outgoing V} (hm : Sendable T text m) {got : Bytes}
    (hstands : ict.Stands (.header got)) (hread : got = bytesOf part)
    (hfd : ict.scmFd = if wantFd ∧ part ≠ [] then m.scmFd else none)
    (hpiece : got.length + (bytesOf cells).length ≤ headerSize)
    (hcells : part ++ cells <+: frameCells text m) :
    ∃ ret ict', ict.turn wantFd (.data cells) = (ret, ict', []) ∧
      Received text wantFd (m :: rest) (part ++ cells) ret ict' [] [] (m :: rest)
        (part ++ cells) := by
  have hbytes : bytesOf (part ++ cells) = got ++ bytesOf cells := by rw [bytesOf_append, hread]
  have hheader : got ++ bytesOf cells <+: messageHeader m.type (text m.payload).length := by
    have hfront := bytesOf_front hcells
    rw [hbytes] at hfront
    apply List.prefix_of_prefix_length_le hfront (List.prefix_append ..)
    rwa [messageHeader_length, List.length_append]
  obtain ⟨ret, ict', hturn, hret, hfd', hcursor⟩ := turn_inside_header wantFd hm hstands hheader
  refine ⟨ret, ict', hturn, hret, rfl, rfl, rfl, by rwa [hbytes], ?_, by simp⟩
  rintro m' ⟨⟩
  refine ⟨hcells, ?_, by rw [hfd', fdAfter_eq hcells hfd]⟩
  intro heq
  have hlen := congrArg List.length heq
  rw [← bytesOf_length, hbytes, List.length_append, frameCells_length] at hlen
  have hpos := hm.pos
  omega

/-- A piece is within the text: the message is delivered if the text is complete. -/
theorem turn_first_text {m : Outgoing V} (hm : Sendable T text m) {ps : List Bytes}
    (hstands : ict.Stands (.payload (messageHeader m.type (text m.payload).length)
      (text m.payload).length ps))
    (hproper : Cursor.Proper ipcFormat (.payload (messageHeader m.type (text m.payload).length)
      (text m.payload).length ps))
    (hread : messageHeader m.type (text m.payload).length ++ ps.flatten = bytesOf part)
    (hfd : ict.scmFd = if wantFd ∧ part ≠ [] then m.scmFd else none)
    (hpiece : (ps ++ [bytesOf cells]).flatten.length ≤ (text m.payload).length)
    (hcells : part ++ cells <+: frameCells text m) :
    ∃ ict' msgs done rest' part', ict.turn wantFd (.data cells) = (none, ict', msgs) ∧
      Received text wantFd (m :: rest) (part ++ cells) none ict' msgs done rest' part' := by
  have hshort : ps.flatten.length < (text m.payload).length := by
    obtain rfl | hlt := hproper.2.2
    · exact hm.pos
    · exact hlt
  have hbytes : bytesOf (part ++ cells) =
      messageHeader m.type (text m.payload).length ++ (ps.flatten ++ bytesOf cells) := by
    rw [bytesOf_append, ← hread, List.append_assoc]
  have htext : ps.flatten ++ bytesOf cells <+: text m.payload := by
    have hfront := bytesOf_front hcells
    rw [hbytes] at hfront
    exact (List.prefix_append_right_inj _).mp hfront
  have hproper' := Cursor.step_proper hproper hpiece
  obtain ⟨ict', msgs, hturn, hstands', hcase⟩ := turn_inside_text wantFd hm hstands hshort htext
  have hflat : (ps ++ [bytesOf cells]).flatten = ps.flatten ++ bytesOf cells := by simp
  rw [Cursor.step, hflat] at hstands' hproper'
  split at hcase
  · rename_i heq
    obtain ⟨rfl, hnone⟩ := hcase
    have hwhole : part ++ cells = frameCells text m := by
      apply hcells.eq_of_length
      rw [frameCells_length, ← bytesOf_length, hbytes, heq, List.length_append,
        messageHeader_length]
    have hnonempty : part ++ cells ≠ [] := by
      rw [hwhole, ← List.length_pos_iff, frameCells_length]
      exact Nat.add_pos_left (by decide) _
    rw [heq, if_neg (lt_irrefl _)] at hstands'
    refine ⟨ict', _, [m], rest, [], hturn, by simp, rfl, ?_, by simp [hwhole],
      .fresh hstands' hnone rest⟩
    simp [Outgoing.received, fdAfter_eq hcells hfd, hnonempty]
  · rename_i hnot
    obtain ⟨rfl, hkept⟩ := hcase
    have hlt : (ps.flatten ++ bytesOf cells).length < (text m.payload).length :=
      lt_of_le_of_ne htext.length_le (mt htext.eq_of_length hnot)
    rw [if_pos hlt] at hstands' hproper'
    refine ⟨ict', [], [], m :: rest, part ++ cells, hturn, by simp, rfl, rfl, rfl, ?_⟩
    refine ⟨⟨_, hstands', hproper', by rw [hbytes, Cursor.read, hflat]⟩, ?_, by simp⟩
    rintro m' ⟨⟩
    refine ⟨hcells, ?_, by rw [hkept, fdAfter_eq hcells hfd]⟩
    intro heq
    apply hnot
    have hsame := congrArg bytesOf heq
    rw [hbytes, frameCells, bytesOf_withFd, messageBytes_eq] at hsame
    exact List.append_cancel_left hsame

/-- A piece that stays within the message being read either completes it or does not. -/
theorem turn_first {m : Outgoing V} (h : Reading text wantFd (m :: rest) part ict)
    (hm : Sendable T text m) (hlen : cells.length ≤ ict.recvLen)
    (hpre : part ++ cells <+: (m :: rest).flatMap (frameCells text)) :
    ∃ ret ict' msgs done rest' part', ict.turn wantFd (.data cells) = (ret, ict', msgs) ∧
      Received text wantFd (m :: rest) (part ++ cells) ret ict' msgs done rest' part' := by
  obtain ⟨c, hstands, hproper, hread⟩ := h.cursor
  obtain ⟨hpart, -, hfd⟩ := h.inFirst m rfl
  have hne : c ≠ .refused := by
    rintro rfl
    exact hstands
  have hpiece := IpcCt.fits_cursor hstands hproper hlen
  have hinside : (part ++ cells).length ≤ (frameCells text m).length →
      part ++ cells <+: frameCells text m := fun hle =>
    List.prefix_of_prefix_length_le hpre (List.prefix_append ..) hle
  have hlength : (part ++ cells).length = c.read.length + (bytesOf cells).length := by
    rw [List.length_append, hread, bytesOf_length, bytesOf_length]
  rw [hlength, frameCells_length] at hinside
  obtain ⟨got, rfl, -⟩ | ⟨ps, rfl, -⟩ := read_prefix hm hproper hread hpart hne
  · have hroom : got.length + (bytesOf cells).length ≤ headerSize := hpiece
    obtain ⟨ret, ict', hturn, hreceived⟩ := turn_first_header hm hstands hread hfd hroom
      (hinside (hroom.trans (Nat.le_add_right _ _)))
    exact ⟨ret, ict', [], [], m :: rest, part ++ cells, hturn, hreceived⟩
  · have hfit : (ps ++ [bytesOf cells]).flatten.length ≤ (text m.payload).length := hpiece
    have hcells : part ++ cells <+: frameCells text m := by
      apply hinside
      rw [Cursor.read, List.length_append, messageHeader_length]
      rw [List.flatten_append, List.length_append, List.flatten_singleton] at hfit
      omega
    exact ⟨none, turn_first_text hm hstands hproper hread hfd hfit hcells⟩

theorem turn_last (h : Reading text wantFd [] part ict) :
    ∃ ret ict' msgs, ict.turn wantFd (.data []) = (ret, ict', msgs) ∧
      Received text wantFd [] part ret ict' msgs [] [] part := by
  obtain ⟨c, hstands, hproper, hread⟩ := h.cursor
  obtain ⟨rfl, hfd⟩ := h.atRest rfl
  cases c with
  | header got =>
    obtain rfl : got = [] := hread
    have hroom : ([] : Bytes).length + ([] : List Cell).length ≤ headerSize := Nat.zero_le _
    have hspec := IpcCt.turn_header hstands hroom wantFd
    obtain ⟨ict', hturn, hstands', hfd'⟩ := hspec
    refine ⟨_, ict', [], hturn, by simp, rfl, rfl, rfl, .fresh hstands' ?_ []⟩
    rw [hfd']
    simp [IpcCt.fdAfter, IpcCt.ioRecv, hfd]
  | payload header n ps =>
    have hheader : header = [] := (List.append_eq_nil_iff.mp hread).1
    have hlen := hproper.1
    rw [hheader] at hlen
    exact absurd hlen (by decide)
  | refused => exact absurd hstands id

theorem turn_received (h : Reading text wantFd rest part ict)
    (hsend : ∀ m ∈ rest, Sendable T text m) (hlen : cells.length ≤ ict.recvLen)
    (hpre : part ++ cells <+: rest.flatMap (frameCells text)) :
    ∃ ret ict' msgs done rest' part', ict.turn wantFd (.data cells) = (ret, ict', msgs) ∧
      Received text wantFd rest (part ++ cells) ret ict' msgs done rest' part' := by
  cases rest with
  | nil =>
    obtain rfl : cells = [] := (List.append_eq_nil_iff.mp (List.prefix_nil.mp hpre)).2
    obtain ⟨ret, ict', msgs, hturn, hreceived⟩ := turn_last h
    exact ⟨ret, ict', msgs, [], [], part, hturn, by rwa [List.append_nil]⟩
  | cons m rest => exact turn_first h (hsend m List.mem_cons_self) hlen hpre

/-- A call of `ipc_ct_read` that gets to all that the socket has for it. -/
theorem read_received {rs : List RecvMsg} (h : Reading text wantFd rest part ict)
    (hsend : ∀ m ∈ rest, Sendable T text m) (herror : ∀ r ∈ rs, r ≠ .error)
    (hfits : ict.Fits wantFd rs) (hall : (ict.ipcCtRead wantFd rs).2.2.2 = [])
    (hpre : part ++ receivedCells rs <+: rest.flatMap (frameCells text)) :
    ∃ done rest' part', Received text wantFd rest (part ++ receivedCells rs)
      (ict.ipcCtRead wantFd rs).1 (ict.ipcCtRead wantFd rs).2.1
      (ict.ipcCtRead wantFd rs).2.2.1 done rest' part' := by
  induction rs generalizing rest part ict with
  | nil => exact ⟨[], rest, part, by simp [IpcCt.ipcCtRead], rfl, rfl, by simp [receivedCells], h⟩
  | cons r rs ih =>
    obtain ⟨hr, hrs⟩ := List.forall_mem_cons.mp herror
    cases r with
    | eintr => exact ih h hsend hrs hfits.2 hall hpre
    | eagain =>
      obtain rfl : rs = [] := hall
      exact ⟨[], rest, part, by simp [IpcCt.ipcCtRead, IpcCt.turn], rfl, rfl,
        by simp [receivedCells], h⟩
    | error => exact absurd rfl hr
    | data cells =>
      rw [receivedCells, ← List.append_assoc] at hpre ⊢
      have hnow : part ++ cells <+: rest.flatMap (frameCells text) :=
        (List.prefix_append ..).trans hpre
      obtain ⟨ret, ict', msgs, done, rest', part', hturn, hreceived⟩ :=
        turn_received h hsend hfits.1 hnow
      have htail := hfits.2
      simp only [hturn] at htail
      rw [IpcCt.ipcCtRead, hturn] at hall ⊢
      obtain ⟨halive, rfl, hmsgs, hconsumed, hreading⟩ := hreceived
      cases ret with
      | some b =>
        obtain rfl : rs = [] := hall
        exact ⟨done, rest', part', halive, rfl, hmsgs, by simpa [receivedCells] using hconsumed,
          hreading⟩
      | none =>
        rw [hconsumed, List.append_assoc, List.flatMap_append] at hpre
        obtain ⟨more, rest'', part'', halive', hsplit', hmsgs', hconsumed', hreading'⟩ :=
          ih hreading (fun m hm => hsend m (List.mem_append_right _ hm)) hrs htail hall
            ((List.prefix_append_right_inj _).mp hpre)
        refine ⟨done ++ more, rest'', part'', halive', by rw [hsplit', List.append_assoc], ?_, ?_,
          hreading'⟩
        · simp only [hmsgs, hmsgs', List.map_append]
        · rw [hconsumed, List.append_assoc, hconsumed', List.flatMap_append, List.append_assoc]

end Reader

/-! ## The whole link -/

/-- The messages `done` have been given to the reader's callback; what has been received of
the next one, what is on the wire and what is in the queue make up the messages `rest`. -/
structure Link.Carries (text : V → Bytes) (wantFd : Bool) (sent : List (Outgoing V)) (s : Link T)
    (done rest : List (Outgoing V)) (part : List Cell) : Prop where
  split : sent = done ++ rest
  sendable : ∀ m ∈ rest, Sendable T text m
  delivered : s.delivered = done.map (Outgoing.received wantFd)
  reading : Reading text wantFd rest part s.ict
  onTheWay : part ++ (s.wire ++ s.queue.flatMap IpcWrite.pending) =
    rest.flatMap (frameCells text)
  queue : ∀ wr ∈ s.queue, wr.Proper
  alive : s.failed = false

theorem ipcCtWriteMsg_eq {m : Outgoing V} (hm : Sendable T text m) (queue : List IpcWrite) :
    ipcCtWriteMsg m.type (some (text m.payload)) m.scmFd queue =
      queue ++ [⟨messageBytes m.type (text m.payload),
        (messageBytes m.type (text m.payload)).length, m.scmFd⟩] := by
  have hle := hm.le
  unfold maxPayload at hle
  simp only [ipcCtWriteMsg]
  rw [if_neg (by omega)]

theorem Link.Carries.enqueue {wantFd : Bool} {sent done rest : List (Outgoing V)}
    {part : List Cell} {s : Link T} (h : s.Carries text wantFd sent done rest part)
    {m : Outgoing V} (hm : Sendable T text m) :
    (s.step text wantFd (.enqueue m)).Carries text wantFd (sent ++ [m]) done (rest ++ [m])
      part := by
  simp only [Link.step, ipcCtWriteMsg_eq hm]
  constructor
  · rw [h.split, List.append_assoc]
  · exact List.forall_mem_append.mpr ⟨h.sendable, by simpa using hm⟩
  · exact h.delivered
  · obtain ⟨hcursor, hfirst, hrest⟩ := h.reading
    refine ⟨hcursor, ?_, by simp⟩
    cases hrest' : rest with
    | nil =>
      obtain ⟨rfl, hfd⟩ := hrest hrest'
      rintro m' ⟨⟩
      exact not_begun hfd m
    | cons m' rest' =>
      rw [hrest'] at hfirst
      exact hfirst
  · rw [List.flatMap_append, List.flatMap_append, ← h.onTheWay]
    simp [IpcWrite.pending, frameCells]
  · refine List.forall_mem_append.mpr ⟨h.queue, ?_⟩
    rintro wr hwr
    rw [List.mem_singleton.mp hwr]
    exact ⟨Nat.succ_pos _, le_rfl⟩
  · exact h.alive

theorem Link.Carries.write {wantFd : Bool} {sent done rest : List (Outgoing V)}
    {part : List Cell} {s : Link T} (h : s.Carries text wantFd sent done rest part)
    {os : List SendMsg} (hos : ∀ o ∈ os, o ≠ .error ∧ o ≠ .sent 0) :
    (s.step text wantFd (.write os)).Carries text wantFd sent done rest part := by
  obtain ⟨hpending, hproper⟩ := ipcCtWrite_pending h.queue os
  have halive := ipcCtWrite_ne_failed hos s.queue
  constructor
  · exact h.split
  · exact h.sendable
  · exact h.delivered
  · exact h.reading
  · rw [← h.onTheWay, ← hpending]
    simp [Link.step]
  · exact hproper
  · simp [Link.step, h.alive, halive]

theorem Link.Carries.read_more {wantFd : Bool} {sent done rest : List (Outgoing V)}
    {part : List Cell} {s : Link T} (h : s.Carries text wantFd sent done rest part)
    {rs : List RecvMsg} (hrs : s.Possible text wantFd (.read rs)) :
    ∃ more rest' part',
      Received text wantFd rest (part ++ receivedCells rs) (s.ict.ipcCtRead wantFd rs).1
        (s.ict.ipcCtRead wantFd rs).2.1 (s.ict.ipcCtRead wantFd rs).2.2.1 more rest' part' ∧
      (s.step text wantFd (.read rs)).Carries text wantFd sent (done ++ more) rest' part' := by
  obtain ⟨herror, hfits, ⟨later, hwire⟩, hall⟩ := hrs
  have hpre : part ++ receivedCells rs <+: rest.flatMap (frameCells text) := by
    rw [← h.onTheWay, ← hwire]
    exact ⟨later ++ s.queue.flatMap IpcWrite.pending, by simp⟩
  obtain ⟨more, rest', part', hreceived⟩ :=
    read_received h.reading h.sendable herror hfits hall hpre
  refine ⟨more, rest', part', hreceived, ?_⟩
  obtain ⟨halive, hsplit, hmsgs, hconsumed, hreading⟩ := hreceived
  constructor
  · rw [h.split, hsplit, List.append_assoc]
  · intro m hm
    apply h.sendable
    rw [hsplit]
    exact List.mem_append_right _ hm
  · simp [Link.step, h.delivered, hmsgs]
  · exact hreading
  · have hway := h.onTheWay
    rw [hsplit, List.flatMap_append, ← hwire, List.append_assoc, ← List.append_assoc,
      hconsumed, List.append_assoc] at hway
    simpa [Link.step, ← hwire] using List.append_cancel_left hway
  · exact h.queue
  · simp [Link.step, h.alive, halive]

theorem Link.Carries.read {wantFd : Bool} {sent done rest : List (Outgoing V)}
    {part : List Cell} {s : Link T} (h : s.Carries text wantFd sent done rest part)
    {rs : List RecvMsg} (hrs : s.Possible text wantFd (.read rs)) :
    ∃ done' rest' part',
      (s.step text wantFd (.read rs)).Carries text wantFd sent done' rest' part' := by
  obtain ⟨more, rest', part', -, hcarries⟩ := h.read_more hrs
  exact ⟨done ++ more, rest', part', hcarries⟩

theorem Link.start_carries (wantFd : Bool) :
    (Link.start T).Carries text wantFd [] [] [] [] where
  split := rfl
  sendable := by simp
  delivered := rfl
  reading := .fresh (ipcCtInit_stands T) rfl []
  onTheWay := rfl
  queue := by simp [Link.start]
  alive := rfl

theorem Link.Carries.run {wantFd : Bool} {sent done rest : List (Outgoing V)}
    {part : List Cell} {s : Link T} (h : s.Carries text wantFd sent done rest part)
    {inputs : List (LinkInput V)}
    (hinputs : Meets (Link.step text wantFd) (Link.Possible text wantFd) s inputs) :
    ∃ done' rest' part', (run (Link.step text wantFd) s inputs).Carries text wantFd
      (sent ++ inputs.flatMap LinkInput.queued) done' rest' part' := by
  induction inputs generalizing s sent done rest part with
  | nil => exact ⟨done, rest, part, by simpa using h⟩
  | cons i inputs ih =>
    cases i with
    | enqueue m => simpa [LinkInput.queued] using ih (h.enqueue hinputs.1) hinputs.2
    | write os => exact ih (h.write hinputs.1) hinputs.2
    | read rs =>
      obtain ⟨done', rest', part', h'⟩ := h.read hinputs.1
      exact ih h' hinputs.2

/-- A message of which nothing is on the way any more has been received. -/
theorem Link.Carries.rest_eq_nil {wantFd : Bool} {sent done rest : List (Outgoing V)}
    {part : List Cell} {s : Link T} (h : s.Carries text wantFd sent done rest part)
    (hqueue : s.queue = []) (hwire : s.wire = []) : rest = [] := by
  have hway := h.onTheWay
  rw [hqueue, hwire, List.flatMap_nil, List.append_nil, List.append_nil] at hway
  cases hrest : rest with
  | nil => rfl
  | cons m rest' =>
    obtain ⟨hpart, hne, -⟩ := h.reading.inFirst m (by rw [hrest]; rfl)
    rw [hrest, List.flatMap_cons] at hway
    have hlen := hpart.length_le
    rw [hway, List.length_append] at hlen
    have hnil : rest'.flatMap (frameCells text) = [] :=
      List.eq_nil_of_length_eq_zero (by omega)
    rw [hnil, List.append_nil] at hway
    exact absurd hway hne

/-- What has been delivered, in terms of what was queued. -/
theorem Link.Carries.outcome {wantFd : Bool} {sent done rest : List (Outgoing V)}
    {part : List Cell} {s : Link T} (h : s.Carries text wantFd sent done rest part) :
    s.failed = false ∧ s.delivered <+: sent.map (Outgoing.received wantFd) ∧
      (s.queue = [] → s.wire = [] → s.delivered = sent.map (Outgoing.received wantFd)) := by
  refine ⟨h.alive, ?_, fun hqueue hwire => ?_⟩
  · rw [h.split, List.map_append, h.delivered]
    exact List.prefix_append ..
  · rw [h.split, h.rest_eq_nil hqueue hwire, List.append_nil]
    exact h.delivered

/-- In every run of the link the callback has been given the messages in order, each with its
descriptor, and all of them once nothing is left in the queue and on the wire. -/
theorem link_round_trip (T : JsonTokener V) (text : V → Bytes) (wantFd : Bool)
    (inputs : List (LinkInput V))
    (h : Meets (Link.step text wantFd) (Link.Possible text wantFd) (Link.start T) inputs) :
    let s := run (Link.step text wantFd) (Link.start T) inputs
    let sent := inputs.flatMap LinkInput.queued
    s.failed = false ∧ s.delivered <+: sent.map (Outgoing.received wantFd) ∧
      (s.queue = [] → s.wire = [] → s.delivered = sent.map (Outgoing.received wantFd)) := by
  intro s sent
  obtain ⟨done, rest, part, hs⟩ := (Link.start_carries wantFd).run h
  exact hs.outcome

def emptyObjectText : Unit → Bytes := fun _ => [123, 125]

/-- A success with a descriptor, sent in three parts and received in four. -/
def successWithFd : List (LinkInput Unit) :=
  [.enqueue ⟨2, (), some 7⟩,
    .write [.eintr, .sent 3, .eagain],
    .read [.data [(2, some 7), (2, none)]],
    .write [.sent 3, .sent 1],
    .read [.data [(0, none)]],
    .read [.data [(0, none), (0, none)], .eintr, .data [(123, none)], .data [(125, none)],
      .eagain]]

theorem emptyObject_document : emptyObjects.Document (emptyObjectText ()) () where
  undecided xs hxs hne := by
    obtain ⟨ys, hys⟩ := hxs
    match xs, hne with
    | [], _ => exact ⟨_, rfl⟩
    | [x], _ =>
      obtain ⟨rfl, -⟩ := List.cons_eq_cons.mp hys
      exact ⟨_, rfl⟩
    | [x, y], hne =>
      obtain ⟨rfl, h⟩ := List.cons_eq_cons.mp hys
      obtain ⟨rfl, -⟩ := List.cons_eq_cons.mp h
      exact absurd rfl hne
    | x :: y :: z :: xs, _ => simp [emptyObjectText] at hys
  decided := rfl

theorem successWithFd_received :
    (run (Link.step emptyObjectText true) (Link.start emptyObjects) successWithFd).delivered =
      [⟨2, (), some 7⟩] := by
  have hpossible : Meets (Link.step emptyObjectText true) (Link.Possible emptyObjectText true)
      (Link.start emptyObjects) successWithFd :=
    ⟨⟨by decide, by decide, emptyObject_document⟩,
      by unfold Link.Possible; decide,
      ⟨by decide, ⟨by decide, trivial⟩, by decide, rfl⟩,
      by unfold Link.Possible; decide,
      ⟨by decide, ⟨by decide, trivial⟩, by decide, rfl⟩,
      ⟨by decide, ⟨by decide, by decide, by decide, by decide, by decide, trivial⟩, by decide,
        rfl⟩, trivial⟩
  exact (link_round_trip emptyObjects emptyObjectText true successWithFd hpossible).2.2 rfl rfl

end Swayclip
