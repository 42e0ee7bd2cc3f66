import Swayclip.Common.Sha256
import Swayclip.Library.Chaining

/-! # What the vendored hash computes

The hash function in one piece: the message is padded to full blocks, the blocks are compressed
one after the other, and the last state is written down. The context that takes the message in
pieces arrives at the same digest. A collision of the hash function is a collision of the
compression of a block.
-/

namespace Swayclip.Sha256
open Library.Chaining

/-- The number of zero bytes between the mark at the end of the message and its length. -/
def zeroCount (n : ℕ) : ℕ := (119 - n % 64) % 64

/-- The message with its padding; the length is counted in bits. -/
def pad (message : Bytes) : Bytes :=
  message ++ (0x80 :: List.replicate (zeroCount message.length) 0 ++
    bigEndian 8 (8 * message.length))

/-- The state words, big end first. -/
def digestBytes (w : Words) : Bytes := w.toList.flatMap (fun x => bigEndian 4 x.toNat)

/-- Compress the blocks of the padded message. -/
def chained (message : Bytes) : Words := (blocks 64 (pad message)).foldl transform init.state

theorem pad_length (message : Bytes) : 64 ∣ (pad message).length := by
  have hzeros : 64 ∣ message.length + (1 + zeroCount message.length + 8) := by
    rw [zeroCount]
    omega
  simpa [pad, Nat.add_comm, Nat.add_left_comm, Nat.add_assoc] using hzeros

/-! ## Bytes of words -/

theorem toUInt8_shiftRight64 (x : UInt64) {i : UInt64} {k : ℕ} (hi : i.toNat = 8 * k)
    (hk : k < 8) : (x >>> i).toUInt8 = UInt8.ofNat (x.toNat / 256 ^ k) := by
  have hshift : 8 * k % 64 = 8 * k := Nat.mod_eq_of_lt (by omega)
  apply UInt8.toNat_inj.mp
  rw [UInt64.toNat_toUInt8, UInt64.toNat_shiftRight, hi, hshift, Nat.shiftRight_eq_div_pow,
    Nat.pow_mul, UInt8.toNat_ofNat']

theorem toUInt8_shiftRight32 (x : UInt32) {i : UInt32} {k : ℕ} (hi : i.toNat = 8 * k)
    (hk : k < 4) : (x >>> i).toUInt8 = UInt8.ofNat (x.toNat / 256 ^ k) := by
  have hshift : 8 * k % 32 = 8 * k := Nat.mod_eq_of_lt (by omega)
  apply UInt8.toNat_inj.mp
  rw [UInt32.toNat_toUInt8, UInt32.toNat_shiftRight, hi, hshift, Nat.shiftRight_eq_div_pow,
    Nat.pow_mul, UInt8.toNat_ofNat']

theorem lengthBytes_eq (bitlen : UInt64) : lengthBytes bitlen = bigEndian 8 bitlen.toNat := by
  have hbyte : ∀ {i : UInt64} {k : ℕ}, i.toNat = 8 * k → k < 8 →
      (bitlen >>> i).toUInt8 = UInt8.ofNat (bitlen.toNat / 256 ^ k) := toUInt8_shiftRight64 bitlen
  simp only [lengthBytes, List.map_cons, List.map_nil, bigEndian]
  rw [hbyte (k := 7) rfl (by decide), hbyte (k := 6) rfl (by decide),
    hbyte (k := 5) rfl (by decide), hbyte (k := 4) rfl (by decide), hbyte (k := 3) rfl (by decide),
    hbyte (k := 2) rfl (by decide), hbyte (k := 1) rfl (by decide), hbyte (k := 0) rfl (by decide)]

theorem wordBytes_eq (w : UInt32) : wordBytes w = bigEndian 4 w.toNat := by
  have hbyte : ∀ {i : UInt32} {k : ℕ}, i.toNat = 8 * k → k < 4 →
      (w >>> i).toUInt8 = UInt8.ofNat (w.toNat / 256 ^ k) := toUInt8_shiftRight32 w
  simp only [wordBytes, List.map_cons, List.map_nil, bigEndian]
  rw [hbyte (k := 3) rfl (by decide), hbyte (k := 2) rfl (by decide),
    hbyte (k := 1) rfl (by decide), hbyte (k := 0) rfl (by decide)]

/-! ## The context -/

/-- Buffer and state are those of the machine that compresses full blocks. -/
theorem push_absorb (ctx : Ctx) (b : UInt8) :
    ((push ctx b).data, (push ctx b).state) = absorb transform 64 (ctx.data, ctx.state) b := by
  simp only [push, absorb]
  split <;> rfl

theorem update_absorb (ctx : Ctx) (data : Bytes) :
    ((update ctx data).data, (update ctx data).state) =
      data.foldl (absorb transform 64) (ctx.data, ctx.state) := by
  induction data generalizing ctx with
  | nil => rfl
  | cons b data ih =>
    rw [List.foldl_cons, ← push_absorb]
    exact ih (push ctx b)

/-- The bits that have been compressed, and those in the buffer. -/
def Ctx.bits (ctx : Ctx) : UInt64 := ctx.bitlen + 8 * UInt64.ofNat ctx.data.length

theorem push_bits (ctx : Ctx) (b : UInt8) : (push ctx b).bits = ctx.bits + 8 := by
  have hgrown : (8 : UInt64) * UInt64.ofNat (ctx.data.length + 1) =
      8 * UInt64.ofNat ctx.data.length + 8 := by
    rw [UInt64.ofNat_add, UInt64.mul_add]
    rfl
  simp only [push, Ctx.bits, List.length_append, List.length_singleton]
  split
  · rename_i hfull
    have hbuffer : (8 : UInt64) * UInt64.ofNat ctx.data.length + 8 = 512 := by
      rw [← hgrown, hfull]
      rfl
    have hempty : (8 : UInt64) * UInt64.ofNat ([] : Bytes).length = 0 := rfl
    rw [hempty, UInt64.add_zero, UInt64.add_assoc, hbuffer]
  · simp only [List.length_append, List.length_singleton]
    rw [hgrown, UInt64.add_assoc]

/-- The counter wraps around, as the length does in the padding. -/
theorem update_bits (ctx : Ctx) (data : Bytes) :
    (update ctx data).bits = ctx.bits + UInt64.ofNat (8 * data.length) := by
  induction data generalizing ctx with
  | nil => exact (UInt64.add_zero _).symm
  | cons b data ih =>
    have hstep : update ctx (b :: data) = update (push ctx b) data := rfl
    rw [hstep, ih, push_bits, List.length_cons, Nat.mul_add, UInt64.ofNat_add, UInt64.add_assoc,
      UInt64.add_comm 8]
    rfl

/-! ## The last blocks -/

/-- What `sha256_final` compresses is the rest of the message with the padding. -/
theorem finalWords_eq {ctx : Ctx} (hdata : ctx.data.length < 64) :
    finalWords ctx = (blocks 64 (ctx.data ++
      (0x80 :: List.replicate (zeroCount ctx.data.length) 0 ++ lengthBytes ctx.bits))).foldl
        transform ctx.state := by
  have hlength : ∀ bits, (lengthBytes bits).length = 8 := fun _ => rfl
  simp only [finalWords]
  split
  · rename_i hroom
    have hzeros : zeroCount ctx.data.length = 55 - ctx.data.length := by
      rw [zeroCount]
      omega
    have hblock : (ctx.data ++ (0x80 :: List.replicate (55 - ctx.data.length) 0 ++
        lengthBytes ctx.bits)).length = 64 := by
      simp only [List.length_append, List.length_cons, List.length_replicate, hlength]
      omega
    rw [hzeros, blocks_self (by decide) hblock, List.foldl_cons, List.foldl_nil, List.append_assoc]
    rfl
  · rename_i hfull
    have hzeros : List.replicate (zeroCount ctx.data.length) (0 : UInt8) =
        List.replicate (63 - ctx.data.length) 0 ++ List.replicate 56 0 := by
      rw [List.replicate_append_replicate, zeroCount]
      congr 1
      omega
    have hfirst : (ctx.data ++ 0x80 :: List.replicate (63 - ctx.data.length) 0).length = 64 := by
      simp only [List.length_append, List.length_cons, List.length_replicate]
      omega
    have hlast : (List.replicate 56 (0 : UInt8) ++ lengthBytes ctx.bits).length = 64 := by
      rw [List.length_append, List.length_replicate, hlength]
    have hsplit : ctx.data ++ (0x80 :: List.replicate (zeroCount ctx.data.length) 0 ++
        lengthBytes ctx.bits) = (ctx.data ++ 0x80 :: List.replicate (63 - ctx.data.length) 0) ++
          (List.replicate 56 0 ++ lengthBytes ctx.bits) := by
      rw [hzeros]
      simp only [List.append_assoc, List.cons_append]
    rw [hsplit, blocks_cons (by decide) hfirst, blocks_self (by decide) hlast, List.foldl_cons,
      List.foldl_cons, List.foldl_nil]
    rfl

theorem final_bytes (ctx : Ctx) :
    (final ctx).bytes = (finalWords ctx).toList.flatMap wordBytes := rfl

theorem finalWords_update (message : Bytes) :
    finalWords (update init message) = chained message := by
  obtain ⟨bs, rest, hmessage, hbs, hrest⟩ := exists_blocks (n := 64) (by decide) message
  have hctx := update_absorb init message
  rw [show (init.data, init.state) = ([], init.state) from rfl, hmessage,
    foldl_absorb transform 64 (by decide) hbs hrest, ← hmessage] at hctx
  obtain ⟨hdata, hstate⟩ := Prod.mk.inj hctx
  have hzeros : zeroCount rest.length = zeroCount message.length := by
    rw [zeroCount, zeroCount, hmessage, List.length_append, length_flatten hbs, Nat.mul_add_mod]
  have hbits : lengthBytes (update init message).bits = bigEndian 8 (8 * message.length) := by
    have hzero : init.bits = 0 := rfl
    rw [lengthBytes_eq, update_bits, hzero, UInt64.zero_add, UInt64.toNat_ofNat']
    exact bigEndian_mod (j := 8) le_rfl _
  have hpad : pad message = bs.flatten ++ (rest ++
      (0x80 :: List.replicate (zeroCount rest.length) 0 ++ bigEndian 8 (8 * message.length))) := by
    rw [pad, hzeros, ← List.append_assoc bs.flatten, ← hmessage]
  rw [finalWords_eq (hdata ▸ hrest), hbits, hdata, hstate, chained, hpad,
    blocks_flatten (by decide) hbs, List.foldl_append]

theorem sha256_bytes (message : Bytes) :
    (final (update init message)).bytes = digestBytes (chained message) := by
  rw [final_bytes, finalWords_update, digestBytes, funext wordBytes_eq]

/-- In whatever pieces the message arrives, the digest is that of the whole message. -/
theorem final_update (pieces : List Bytes) :
    (final (pieces.foldl update init)).bytes = digestBytes (chained pieces.flatten) := by
  have hpieces : ∀ ctx, pieces.foldl update ctx = update ctx pieces.flatten := by
    induction pieces with
    | nil => exact fun _ => rfl
    | cons piece pieces ih =>
      intro ctx
      rw [List.foldl_cons, ih, List.flatten_cons, update_append]
  rw [hpieces, sha256_bytes]

/-! ## Collisions -/

theorem digestBytes_injective : Function.Injective digestBytes := by
  intro v w h
  obtain ⟨a, b, c, d, e, f, g, i⟩ := v
  obtain ⟨a', b', c', d', e', f', g', i'⟩ := w
  have hword : ∀ {x y : UInt32} {l l' : Bytes},
      bigEndian 4 x.toNat ++ l = bigEndian 4 y.toNat ++ l' → x = y ∧ l = l' := by
    intro x y l l' happend
    obtain ⟨hfront, hrest⟩ := List.append_inj happend (by simp)
    exact ⟨UInt32.toNat_inj.mp (bigEndian_inj x.toNat_lt y.toNat_lt hfront), hrest⟩
  simp only [digestBytes, Words.toList, List.flatMap_cons, List.flatMap_nil] at h
  obtain ⟨ha, h⟩ := hword h
  obtain ⟨hb, h⟩ := hword h
  obtain ⟨hc, h⟩ := hword h
  obtain ⟨hd, h⟩ := hword h
  obtain ⟨he, h⟩ := hword h
  obtain ⟨hf, h⟩ := hword h
  obtain ⟨hg, h⟩ := hword h
  obtain ⟨hi, -⟩ := hword h
  rw [ha, hb, hc, hd, he, hf, hg, hi]

/-- The padding tells where the message ends. -/
theorem pad_suffix {x y : Bytes} (hx : x.length < 2 ^ 61) (hy : y.length < 2 ^ 61)
    (h : pad x <:+ pad y) : x = y := by
  obtain ⟨front, hfront⟩ := h
  have hends : bigEndian 8 (8 * x.length) = bigEndian 8 (8 * y.length) := by
    rw [pad, pad, ← List.append_assoc, ← List.append_assoc, ← List.append_assoc] at hfront
    exact (List.append_inj' hfront (by simp)).2
  have hlength : x.length = y.length := by
    have := bigEndian_inj (k := 8) (by omega) (by omega) hends
    omega
  have hpads : (pad x).length = (pad y).length := by
    simp only [pad, List.length_append, List.length_cons, List.length_replicate, bigEndian_length,
      hlength]
  have hsame : pad x = pad y := by
    have hnone := congrArg List.length hfront
    rw [List.length_append, hpads] at hnone
    rw [← hfront, List.eq_nil_of_length_eq_zero (l := front) (by omega), List.nil_append]
  exact (List.append_inj hsame hlength).1

/-- The blocks that are compressed for a message, each with the state before it. -/
def compressed (message : Bytes) : List (Words × Bytes) :=
  arguments transform init.state (blocks 64 (pad message))

theorem not_blocks_suffix {x y : Bytes} (hx : x.length < 2 ^ 61) (hy : y.length < 2 ^ 61)
    (hne : x ≠ y) : ¬ blocks 64 (pad x) <:+ blocks 64 (pad y) := by
  rintro ⟨front, hfront⟩
  apply hne
  apply pad_suffix hx hy
  refine ⟨front.flatten, ?_⟩
  rw [← (flatten_blocks (by decide) (pad_length y)).1, ← hfront, List.flatten_append,
    (flatten_blocks (by decide) (pad_length x)).1]

end Swayclip.Sha256

namespace Swayclip
open Library.Chaining Sha256

/-- Two messages have two digests, unless two different calls of the compression for them have one
result. -/
theorem sha256_ne_or_collides {x y : Bytes} (hx : x.length < 2 ^ 61) (hy : y.length < 2 ^ 61)
    (hne : x ≠ y) : sha256 x ≠ sha256 y ∨ Collides transform (compressed x) (compressed y) := by
  by_cases h : sha256 x = sha256 y
  · right
    have hbytes : digestBytes (chained x) = digestBytes (chained y) := by
      rw [← sha256_bytes, ← sha256_bytes]
      exact congrArg Digest.bytes h
    exact collides_of_not_suffix (not_blocks_suffix hx hy hne) (not_blocks_suffix hy hx hne.symm)
      (digestBytes_injective hbytes)
  · exact Or.inl h

/-- Zeros that fill more than a block, and one more. -/
theorem sha256_ne_or_collides_zero :
    sha256 (List.replicate 65 0) ≠ sha256 (List.replicate 66 0) ∨
      Collides transform (compressed (List.replicate 65 0))
        (compressed (List.replicate 66 0)) :=
  sha256_ne_or_collides (by decide) (by decide) (by decide)

end Swayclip
