import Mathlib.Data.List.Basic

/-! # Incremental parsers

A parser that takes a text piece by piece. A piece is swallowed, completes a value, or is
found to be wrong; after a verdict the parser starts afresh and the rest of the piece is
dropped. A designated mark ends a text, and never leaves the parser undecided.
-/

namespace Swayclip.Library.Incremental

variable {α V : Type*}

/-- What comes of a piece of a text. -/
inductive Parsed (σ V : Type*) where
  | more (state : σ)
  | value (v : V)
  | bad
deriving DecidableEq

namespace Parsed

variable {σ : Type*}

def andThen (r : Parsed σ V) (f : σ → Parsed σ V) : Parsed σ V :=
  match r with
  | more s => f s
  | value v => value v
  | bad => bad

def value? : Parsed σ V → Option V
  | value v => some v
  | _ => none

end Parsed

/-- An incremental parser of texts that end with `mark`. -/
structure Parser (mark : α) (V : Type*) where
  State : Type
  start : State
  parse : State → List α → Parsed State V
  parse_nil : ∀ s, parse s [] = .more s
  parse_append : ∀ s xs ys, parse s (xs ++ ys) = (parse s xs).andThen (fun s' => parse s' ys)
  parse_mark : ∀ s s', parse s [mark] ≠ .more s'
  start_mark : ∀ v, parse start [mark] ≠ .value v

namespace Parser

variable {mark : α} (P : Parser mark V)

/-- A parser that looks at one symbol at a time. -/
def foldSymbols {σ : Type} (feed : σ → α → Parsed σ V) : σ → List α → Parsed σ V
  | s, [] => .more s
  | s, x :: xs => (feed s x).andThen (fun s' => foldSymbols feed s' xs)

theorem foldSymbols_append {σ : Type} (feed : σ → α → Parsed σ V) (s : σ) (xs ys : List α) :
    foldSymbols feed s (xs ++ ys) =
      (foldSymbols feed s xs).andThen (fun s' => foldSymbols feed s' ys) := by
  induction xs generalizing s with
  | nil => rfl
  | cons x xs ih =>
    simp only [List.cons_append, foldSymbols]
    cases feed s x with
    | more s' => exact ih s'
    | value v => rfl
    | bad => rfl

def ofFeed {σ : Type} (start : σ) (feed : σ → α → Parsed σ V)
    (hmark : ∀ s s', feed s mark ≠ .more s') (hstart : ∀ v, feed start mark ≠ .value v) :
    Parser mark V where
  State := σ
  start := start
  parse := foldSymbols feed
  parse_nil _ := rfl
  parse_append := foldSymbols_append feed
  parse_mark s s' := by
    have h := hmark s
    simp only [foldSymbols]
    cases hf : feed s mark with
    | more t => exact absurd hf (h t)
    | value v => simp [Parsed.andThen]
    | bad => simp [Parsed.andThen]
  start_mark v := by
    have h := hmark start
    simp only [foldSymbols]
    cases hf : feed start mark with
    | more t => exact absurd hf (h t)
    | value w => exact absurd hf (hstart w)
    | bad => simp [Parsed.andThen]

def read (text : List α) : Option V := (P.parse P.start text).value?

/-- The state in which the next piece is met: a verdict starts afresh. -/
def next (s : P.State) (piece : List α) : P.State :=
  match P.parse s piece with
  | .more s' => s'
  | _ => P.start

/-- The values found in a text that arrives in pieces. -/
def scan : P.State → List (List α) → List V
  | _, [] => []
  | s, piece :: pieces => (P.parse s piece).value?.toList ++ scan (P.next s piece) pieces

/-- The pieces that follow the one with the first verdict. -/
def leftover : P.State → List (List α) → List (List α)
  | _, [] => []
  | s, piece :: pieces =>
    match P.parse s piece with
    | .more s' => leftover s' pieces
    | _ => pieces

variable {P}

theorem scan_append (s : P.State) (ps qs : List (List α)) :
    P.scan s (ps ++ qs) = P.scan s ps ++ P.scan (ps.foldl P.next s) qs := by
  induction ps generalizing s with
  | nil => rfl
  | cons p ps ih => simp [scan, ih]

/-- The first verdict is that on the whole text; what is found beyond it comes from the
pieces left over. -/
theorem scan_eq (s : P.State) (pieces : List (List α)) :
    P.scan s pieces = (P.parse s pieces.flatten).value?.toList ++
      P.scan P.start (P.leftover s pieces) := by
  induction pieces generalizing s with
  | nil => simp [scan, leftover, P.parse_nil, Parsed.value?]
  | cons p ps ih =>
    simp only [scan, leftover, next, List.flatten_cons, P.parse_append]
    cases P.parse s p with
    | more s' => simpa [Parsed.andThen, Parsed.value?] using ih s'
    | value v => simp [Parsed.andThen, Parsed.value?]
    | bad => simp [Parsed.andThen, Parsed.value?]

theorem parse_concat_mark (s s' : P.State) (xs : List α) : P.parse s (xs ++ [mark]) ≠ .more s' := by
  rw [P.parse_append]
  cases P.parse s xs with
  | more t => exact P.parse_mark t s'
  | value v => simp [Parsed.andThen]
  | bad => simp [Parsed.andThen]

theorem next_concat_mark (s : P.State) (xs : List α) : P.next s (xs ++ [mark]) = P.start := by
  unfold next
  split
  · rename_i s' h
    exact absurd h (parse_concat_mark s s' xs)
  · rfl

/-- As long as there is no verdict the parser goes on from piece to piece. -/
theorem foldl_next_of_more {s s' : P.State} {pieces : List (List α)}
    (h : P.parse s pieces.flatten = .more s') : pieces.foldl P.next s = s' := by
  induction pieces generalizing s with
  | nil =>
    rw [List.flatten_nil, P.parse_nil] at h
    exact Parsed.more.inj h
  | cons p ps ih =>
    rw [List.flatten_cons, P.parse_append] at h
    simp only [List.foldl_cons, next]
    cases hp : P.parse s p with
    | more t =>
      rw [hp] at h
      exact ih h
    | value v =>
      rw [hp] at h
      cases h
    | bad =>
      rw [hp] at h
      cases h

/-- The text is one document: nothing before its mark decides it. -/
structure Document (P : Parser mark V) (text : List α) (v : V) : Prop where
  undecided : ∀ xs, xs <+: text → xs ≠ text → ∃ s, P.parse P.start xs = .more s
  decided : P.parse P.start (text ++ [mark]) = .value v

section Collect
variable {β : Type} [DecidableEq β] (decode : List β → Option V)

/-- A text is collected up to its mark and then decoded. -/
def collectSymbol (mark : β) (text : List β) (x : β) : Parsed (List β) V :=
  if x = mark then match decode text with
    | some v => .value v
    | none => .bad
  else .more (text ++ [x])

/-- The parser that looks at whole texts only. -/
def collect (mark : β) (hempty : decode [] = none) : Parser mark V :=
  ofFeed [] (collectSymbol decode mark)
    (fun text text' => by
      rw [collectSymbol, if_pos rfl]
      cases decode text <;> exact nofun)
    (fun v => by
      rw [collectSymbol, if_pos rfl, hempty]
      exact nofun)

theorem foldSymbols_collect {mark : β} {xs : List β} (h : mark ∉ xs) (text : List β) :
    foldSymbols (collectSymbol decode mark) text xs = .more (text ++ xs) := by
  induction xs generalizing text with
  | nil => rw [foldSymbols, List.append_nil]
  | cons x xs ih =>
    obtain ⟨hx, hxs⟩ := not_or.mp (mt List.mem_cons.mpr h)
    rw [foldSymbols, collectSymbol, if_neg (Ne.symm hx)]
    change foldSymbols _ (text ++ [x]) xs = _
    rw [ih hxs, List.append_assoc, List.singleton_append]

/-- A text without the mark in it is one document. -/
theorem collect_document {decode : List β → Option V} {mark : β} (hempty : decode [] = none)
    {text : List β} (htext : mark ∉ text) {v : V} (hv : decode text = some v) :
    (collect decode mark hempty).Document text v where
  undecided xs hxs _ :=
    ⟨xs, foldSymbols_collect decode (fun h => htext (hxs.subset h)) []⟩
  decided := by
    change foldSymbols (collectSymbol decode mark) [] (text ++ [mark]) = _
    rw [foldSymbols_append, foldSymbols_collect decode htext]
    change (collectSymbol decode mark text mark).andThen _ = _
    rw [collectSymbol, if_pos rfl, hv]
    rfl

end Collect

end Parser

end Swayclip.Library.Incremental
