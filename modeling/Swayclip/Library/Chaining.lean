import Mathlib.Algebra.BigOperators.Group.List.Basic
import Mathlib.Data.List.Induction
import Mathlib.Tactic.Ring

/-! # Hashing block by block

A long list is cut into blocks of one size, and a state is compressed with one block after the
other. A machine that takes single elements and compresses whenever its buffer is full computes
the same. If no list of blocks ends in another one, then two lists with one hash exhibit two
different arguments on which the compression agrees.
-/

namespace Swayclip.Library.Chaining

variable {σ α β : Type*}

/-! ## Blocks -/

/-- The full blocks of size `n`, without what is left over at the end. -/
def blocks (n : ℕ) (l : List α) : List (List α) :=
  (List.range (l.length / n)).map fun i => (l.drop (n * i)).take n

theorem blocks_short {n : ℕ} {l : List α} (h : l.length < n) : blocks n l = [] := by
  rw [blocks, Nat.div_eq_of_lt h, List.range_zero, List.map_nil]

theorem blocks_cons {n : ℕ} (hn : 0 < n) {b : List α} (hb : b.length = n) (l : List α) :
    blocks n (b ++ l) = b :: blocks n l := by
  have hcount : (b ++ l).length / n = l.length / n + 1 := by
    rw [List.length_append, hb, Nat.add_comm, Nat.add_div_right _ hn]
  rw [blocks, hcount, List.range_succ_eq_map, List.map_cons, List.map_map, blocks]
  congr 1
  · rw [Nat.mul_zero, List.drop_zero, ← hb, List.take_left]
  · refine List.map_congr_left fun i _ => ?_
    have hskip : n * (i + 1) = b.length + n * i := by
      rw [hb]
      ring
    rw [Function.comp_apply, Nat.succ_eq_add_one, hskip, List.drop_length_add_append]

theorem blocks_self {n : ℕ} (hn : 0 < n) {b : List α} (hb : b.length = n) : blocks n b = [b] := by
  have hcons := blocks_cons hn hb []
  rwa [List.append_nil, blocks_short (l := []) hn] at hcons

/-- Blocks that are put together are cut apart again. -/
theorem blocks_flatten {n : ℕ} (hn : 0 < n) {bs : List (List α)} (hbs : ∀ b ∈ bs, b.length = n)
    (l : List α) : blocks n (bs.flatten ++ l) = bs ++ blocks n l := by
  induction bs with
  | nil => rfl
  | cons b bs ih =>
    rw [List.flatten_cons, List.append_assoc, blocks_cons hn (hbs b List.mem_cons_self),
      ih fun c hc => hbs c (List.mem_cons_of_mem _ hc), List.cons_append]

/-- Every list is its blocks with a rest that is shorter than a block. -/
theorem exists_blocks {n : ℕ} (hn : 0 < n) (l : List α) :
    ∃ (bs : List (List α)) (rest : List α), l = bs.flatten ++ rest ∧ (∀ b ∈ bs, b.length = n) ∧
      rest.length < n := by
  induction l using List.reverseRecOn with
  | nil => exact ⟨[], [], rfl, fun _ hb => absurd hb List.not_mem_nil, hn⟩
  | append_singleton l a ih =>
    obtain ⟨bs, rest, rfl, hbs, hrest⟩ := ih
    by_cases hfull : rest.length + 1 = n
    · refine ⟨bs ++ [rest ++ [a]], [], by simp, fun b hb => ?_, hn⟩
      rcases List.mem_append.mp hb with hb | hb
      · exact hbs b hb
      · rw [List.mem_singleton.mp hb, List.length_append, List.length_singleton, hfull]
    · refine ⟨bs, rest ++ [a], List.append_assoc .., hbs, ?_⟩
      rw [List.length_append, List.length_singleton]
      omega

theorem length_flatten {n : ℕ} {bs : List (List α)} (hbs : ∀ b ∈ bs, b.length = n) :
    bs.flatten.length = n * bs.length := by
  rw [List.length_flatten, List.map_congr_left hbs, List.map_const', List.sum_replicate,
    Nat.nsmul_eq_mul, Nat.mul_comm]

/-- A list of full blocks has no rest. -/
theorem flatten_blocks {n : ℕ} (hn : 0 < n) {l : List α} (h : n ∣ l.length) :
    (blocks n l).flatten = l ∧ ∀ b ∈ blocks n l, b.length = n := by
  obtain ⟨bs, rest, rfl, hbs, hrest⟩ := exists_blocks hn l
  have hzero : rest.length = 0 := by
    rw [List.length_append, length_flatten hbs, Nat.dvd_add_right (Dvd.intro _ rfl)] at h
    exact Nat.eq_zero_of_dvd_of_lt h hrest
  rw [blocks_flatten hn hbs, blocks_short hrest, List.append_nil,
    List.eq_nil_of_length_eq_zero hzero, List.append_nil]
  exact ⟨rfl, hbs⟩

/-! ## A machine with a buffer -/

section Absorb
variable (compress : σ → List α → σ) (n : ℕ)

/-- One more element; a full buffer is compressed. -/
def absorb (c : List α × σ) (a : α) : List α × σ :=
  if (c.1 ++ [a]).length = n then ([], compress c.2 (c.1 ++ [a])) else (c.1 ++ [a], c.2)

/-- A full buffer is compressed as soon as it is full, and only then. -/
theorem foldl_absorb_short (buffer rest : List α) (s : σ) (h : (buffer ++ rest).length < n) :
    rest.foldl (absorb compress n) (buffer, s) = (buffer ++ rest, s) := by
  induction rest generalizing buffer with
  | nil => rw [List.foldl_nil, List.append_nil]
  | cons a rest ih =>
    have hlength : (buffer ++ [a] ++ rest).length < n := by simpa using h
    have hopen : (buffer ++ [a]).length ≠ n := by
      have hle : (buffer ++ [a]).length ≤ (buffer ++ [a] ++ rest).length :=
        List.IsPrefix.length_le ⟨rest, rfl⟩
      omega
    rw [List.foldl_cons, absorb, if_neg hopen, ih _ hlength, List.append_assoc,
      List.singleton_append]

theorem foldl_absorb_block (buffer rest : List α) (s : σ) (hrest : rest ≠ [])
    (h : (buffer ++ rest).length = n) :
    rest.foldl (absorb compress n) (buffer, s) = ([], compress s (buffer ++ rest)) := by
  obtain ⟨front, a, rfl⟩ := (List.eq_nil_or_concat' rest).resolve_left hrest
  have hshort : (buffer ++ front).length < n := by
    rw [← List.append_assoc, List.length_append, List.length_singleton] at h
    omega
  rw [List.foldl_append, foldl_absorb_short compress n buffer front s hshort, List.foldl_cons,
    List.foldl_nil, absorb, if_pos (by rwa [List.append_assoc]), List.append_assoc]

/-- The machine compresses the blocks of what it has taken, and keeps the rest. -/
theorem foldl_absorb {bs : List (List α)} (hn : 0 < n) (hbs : ∀ b ∈ bs, b.length = n)
    {rest : List α} (hrest : rest.length < n) (s : σ) :
    (bs.flatten ++ rest).foldl (absorb compress n) ([], s) = (rest, bs.foldl compress s) := by
  induction bs generalizing s with
  | nil => exact foldl_absorb_short compress n [] rest s hrest
  | cons b bs ih =>
    have hb : b.length = n := hbs b List.mem_cons_self
    have hne : b ≠ [] := List.ne_nil_of_length_pos (hb ▸ hn)
    rw [List.flatten_cons, List.append_assoc, List.foldl_append,
      foldl_absorb_block compress n [] b s hne hb, List.nil_append,
      ih (fun c hc => hbs c (List.mem_cons_of_mem _ hc)), List.foldl_cons]

end Absorb

/-! ## Collisions -/

/-- The arguments on which the compression is called. -/
def arguments (compress : σ → β → σ) : σ → List β → List (σ × β)
  | _, [] => []
  | s, b :: bs => (s, b) :: arguments compress (compress s b) bs

theorem arguments_concat (compress : σ → β → σ) (s : σ) (bs : List β) (b : β) :
    arguments compress s (bs ++ [b]) = arguments compress s bs ++ [(bs.foldl compress s, b)] := by
  induction bs generalizing s with
  | nil => rfl
  | cons c bs ih =>
    rw [List.cons_append, arguments, ih, arguments, List.foldl_cons, List.cons_append]

/-- Two different arguments among those of the two lists on which the compression agrees. -/
def Collides (compress : σ → β → σ) (xs ys : List (σ × β)) : Prop :=
  ∃ x ∈ xs, ∃ y ∈ ys, x ≠ y ∧ compress x.1 x.2 = compress y.1 y.2

theorem Collides.append {compress : σ → β → σ} {xs ys : List (σ × β)} (h : Collides compress xs ys)
    (xs' ys' : List (σ × β)) : Collides compress (xs ++ xs') (ys ++ ys') := by
  obtain ⟨x, hx, y, hy, hxy⟩ := h
  exact ⟨x, List.mem_append_left _ hx, y, List.mem_append_left _ hy, hxy⟩

/-- Going back from the end, the two chains differ for the first time somewhere, since neither
list of blocks is the end of the other. -/
theorem collides_of_not_suffix {compress : σ → β → σ} {bs cs : List β} {s s' : σ}
    (hb : ¬ bs <:+ cs) (hc : ¬ cs <:+ bs) (h : bs.foldl compress s = cs.foldl compress s') :
    Collides compress (arguments compress s bs) (arguments compress s' cs) := by
  induction bs using List.reverseRecOn generalizing cs with
  | nil => exact absurd List.nil_suffix hb
  | append_singleton bs b ih =>
    rcases List.eq_nil_or_concat' cs with rfl | ⟨cs, c, rfl⟩
    · exact absurd List.nil_suffix hc
    · rw [List.foldl_append, List.foldl_append, List.foldl_cons, List.foldl_nil, List.foldl_cons,
        List.foldl_nil] at h
      rw [arguments_concat, arguments_concat]
      by_cases hsame : (bs.foldl compress s, b) = (cs.foldl compress s', c)
      · obtain ⟨hstate, rfl⟩ := Prod.mk.inj hsame
        refine (ih (fun hsuffix => hb ?_) (fun hsuffix => hc ?_) hstate).append _ _
        · obtain ⟨front, rfl⟩ := hsuffix
          exact ⟨front, (List.append_assoc ..).symm⟩
        · obtain ⟨front, rfl⟩ := hsuffix
          exact ⟨front, (List.append_assoc ..).symm⟩
      · exact ⟨_, by simp, _, by simp, hsame, h⟩

/-! ## Numbers of a fixed width -/

/-- The last `k` digits of a number in base 256, big end first. -/
def bigEndian : ℕ → ℕ → List UInt8
  | 0, _ => []
  | k + 1, n => UInt8.ofNat (n / 256 ^ k) :: bigEndian k n

@[simp] theorem bigEndian_length (k n : ℕ) : (bigEndian k n).length = k := by
  induction k with
  | zero => rfl
  | succ k ih => rw [bigEndian, List.length_cons, ih]

theorem mod_of_bigEndian {k m n : ℕ} (h : bigEndian k m = bigEndian k n) :
    m % 256 ^ k = n % 256 ^ k := by
  induction k with
  | zero => rw [Nat.pow_zero, Nat.mod_one, Nat.mod_one]
  | succ k ih =>
    obtain ⟨hdigit, hrest⟩ := List.cons.inj h
    have hdigit' := congrArg UInt8.toNat hdigit
    rw [UInt8.toNat_ofNat', UInt8.toNat_ofNat'] at hdigit'
    rw [Nat.pow_succ, Nat.mod_mul, Nat.mod_mul, ih hrest]
    exact congrArg (fun d => n % 256 ^ k + 256 ^ k * d) hdigit'

/-- Higher digits do not show. -/
theorem bigEndian_mod {j k : ℕ} (h : k ≤ j) (n : ℕ) :
    bigEndian k (n % 256 ^ j) = bigEndian k n := by
  induction k with
  | zero => rfl
  | succ k ih =>
    rw [bigEndian, bigEndian, ih (Nat.le_of_succ_le h)]
    congr 1
    obtain ⟨i, rfl⟩ := Nat.exists_eq_add_of_lt h
    have hsplit : 256 ^ (k + i + 1) = 256 ^ k * (256 * 256 ^ i) := by ring
    rw [hsplit, Nat.mod_mul_right_div_self]
    apply UInt8.toNat_inj.mp
    rw [UInt8.toNat_ofNat', UInt8.toNat_ofNat']
    exact Nat.mod_mul_right_mod _ _ _

theorem bigEndian_inj {k m n : ℕ} (hm : m < 256 ^ k) (hn : n < 256 ^ k)
    (h : bigEndian k m = bigEndian k n) : m = n := by
  rw [← Nat.mod_eq_of_lt hm, ← Nat.mod_eq_of_lt hn, mod_of_bigEndian h]

end Swayclip.Library.Chaining
