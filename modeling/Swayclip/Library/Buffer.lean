import Mathlib.Data.List.Basic

/-! # Filling a block of memory

A text is written into a block of a fixed size, item after item, and ends with a terminator.
Writing fails where the block ends. Programs that write are put together from smaller ones, and
succeed if there is room for what they write and for the terminator.
-/

namespace Swayclip.Library

variable {α β : Type*}

/-- A block of memory, and the index at which the next item is written. -/
structure Buffer (β : Type*) where
  mem : List β
  next : ℕ

namespace Buffer

def poke (b : β) (out : Buffer β) : Option (Buffer β) :=
  if out.next < out.mem.length then some { out with mem := out.mem.set out.next b } else none

def push (b : β) (out : Buffer β) : Option (Buffer β) :=
  (out.poke b).map fun out => { out with next := out.next + 1 }

/-- `next += sprintf(&mem[next], ..)` for what comes to this text. The terminator is written, too,
but not counted. -/
def print (terminator : β) (text : List β) (out : Buffer β) : Option (Buffer β) :=
  (text.foldlM (fun out b => push b out) out).bind (poke terminator)

/-- The block starts with what has been written, and there is room for so many items more. -/
structure Holds (written : List β) (room : ℕ) (out : Buffer β) : Prop where
  front : written <+: out.mem
  next : out.next = written.length
  size : out.mem.length = written.length + room

theorem holds_fresh (mem : List β) : Holds [] mem.length ⟨mem, 0⟩ where
  front := List.nil_prefix
  next := rfl
  size := (Nat.zero_add _).symm

/-- The next item is written where the front ends. -/
theorem Holds.exists_poke {written : List β} {room : ℕ} {out : Buffer β}
    (h : Holds written (room + 1) out) (b : β) : ∃ rest,
      out.poke b = some ⟨written ++ b :: rest, written.length⟩ ∧ rest.length = room := by
  obtain ⟨rest, hmem⟩ := h.front
  have hrest : rest.length = room + 1 := by
    have hsize := h.size
    rw [← hmem, List.length_append] at hsize
    exact Nat.add_left_cancel hsize
  obtain ⟨old, rest, rfl⟩ := List.exists_cons_of_length_eq_add_one hrest
  refine ⟨rest, ?_, Nat.succ.inj hrest⟩
  have hnext : out.next < out.mem.length := by
    rw [h.next, h.size]
    omega
  rw [poke, if_pos hnext, h.next, ← hmem, List.set_append_right _ _ (Nat.le_refl _),
    Nat.sub_self, List.set_cons_zero]

/-! ## Writing texts -/

/-- The program writes the text, if there is room for it and for a terminator. -/
def Writes (write : Buffer β → Option (Buffer β)) (text : List β) : Prop :=
  ∀ written room out, Holds written (text.length + (room + 1)) out → ∃ out',
    write out = some out' ∧ Holds (written ++ text) (room + 1) out'

theorem writes_nil : Writes (some : Buffer β → Option (Buffer β)) [] := by
  intro written room out h
  refine ⟨out, rfl, ?_⟩
  rw [List.append_nil]
  rwa [List.length_nil, Nat.zero_add] at h

theorem writes_push (b : β) : Writes (push b) [b] := by
  intro written room out h
  rw [List.length_singleton, Nat.add_comm 1] at h
  obtain ⟨rest, hpoke, hrest⟩ := h.exists_poke b
  refine ⟨⟨written ++ b :: rest, written.length + 1⟩, ?_, ?_, ?_, ?_⟩
  · rw [push, hpoke, Option.map_some]
  · exact ⟨rest, (List.append_cons written b rest).symm⟩
  · rw [List.length_append, List.length_singleton]
  · rw [List.length_append, List.length_append, List.length_cons, hrest, List.length_singleton]
    omega

section Compose
variable {first second : Buffer β → Option (Buffer β)} {text text' : List β}

theorem Writes.bind (h : Writes first text) (h' : Writes second text') :
    Writes (fun out => (first out).bind second) (text ++ text') := by
  intro written room out hout
  rw [List.length_append, Nat.add_assoc, ← Nat.add_assoc text'.length] at hout
  obtain ⟨out', hfirst, hout'⟩ := h _ _ _ hout
  rw [Nat.add_assoc] at hout'
  obtain ⟨out'', hsecond, hout''⟩ := h' _ _ _ hout'
  refine ⟨out'', ?_, ?_⟩
  · exact (congrArg (Option.bind · second) hfirst).trans hsecond
  · rwa [List.append_assoc] at hout''

/-- A loop writes what its rounds write. -/
theorem writes_foldlM {step : Buffer β → α → Option (Buffer β)} {spell : α → List β}
    (hstep : ∀ a, Writes (fun out => step out a) (spell a)) (as : List α) :
    Writes (fun out => as.foldlM step out) (as.flatMap spell) := by
  induction as with
  | nil => exact writes_nil
  | cons a as ih =>
    rw [List.flatMap_cons]
    simp only [List.foldlM_cons]
    exact (hstep a).bind ih

/-- A terminator that is not counted is overwritten next. -/
theorem Writes.poked (h : Writes first text) (b : β) :
    Writes (fun out => (first out).bind (poke b)) text := by
  intro written room out hout
  obtain ⟨out', hfirst, hout'⟩ := h _ _ _ hout
  obtain ⟨rest, hpoke, hrest⟩ := hout'.exists_poke b
  refine ⟨_, (congrArg (Option.bind · (poke b)) hfirst).trans hpoke, ⟨b :: rest, rfl⟩, rfl, ?_⟩
  · rw [List.length_append, List.length_cons, hrest]

end Compose

theorem writes_print (terminator : β) (text : List β) : Writes (print terminator text) text := by
  have hpushes := writes_foldlM writes_push text
  rw [List.flatMap_singleton'] at hpushes
  exact hpushes.poked terminator

/-- A block that is large enough takes the text and its terminator. -/
theorem Writes.terminated {write : Buffer β → Option (Buffer β)} {text : List β}
    (h : Writes write text) {mem : List β} (hsize : text.length + 1 ≤ mem.length) (b : β) :
    ∃ out rest, (write ⟨mem, 0⟩).bind (poke b) = some out ∧ out.mem = text ++ b :: rest := by
  obtain ⟨room, hroom⟩ := Nat.exists_eq_add_of_le hsize
  have hfresh := holds_fresh mem
  rw [hroom, Nat.add_assoc, Nat.add_comm 1] at hfresh
  obtain ⟨out, hwrite, hout⟩ := h _ _ _ hfresh
  obtain ⟨rest, hpoke, -⟩ := hout.exists_poke b
  refine ⟨⟨text ++ b :: rest, text.length⟩, rest, ?_, rfl⟩
  rw [hwrite, Option.bind_some, hpoke, List.nil_append]

end Buffer

end Swayclip.Library
