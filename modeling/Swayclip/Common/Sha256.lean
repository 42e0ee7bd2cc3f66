import Mathlib.Data.List.Basic

/-! # Byte strings and the vendored SHA-256

The daemon hashes what it receives in a streaming fashion: a context buffers up to 63
bytes and compresses each full block. The definitions follow `sha256.c` word by word.
-/

namespace Swayclip

abbrev Bytes := List UInt8

/-- Bytes of an ASCII literal, written as characters so that they evaluate by reduction. -/
def ascii (cs : List Char) : Bytes := cs.map (fun c => UInt8.ofNat c.toNat)

/-- A NUL-terminated string, without its terminator. -/
structure CString where
  bytes : Bytes
  nonul : 0 ∉ bytes
deriving DecidableEq

/-- The 32 bytes that `sha256_final` writes. -/
structure Digest where
  bytes : Bytes
  size : bytes.length = 32
deriving DecidableEq

namespace Sha256

def rotRight (a b : UInt32) : UInt32 := (a >>> b) ||| (a <<< (32 - b))
def ch (x y z : UInt32) : UInt32 := (x &&& y) ^^^ (~~~x &&& z)
def maj (x y z : UInt32) : UInt32 := (x &&& y) ^^^ (x &&& z) ^^^ (y &&& z)
def ep0 (x : UInt32) : UInt32 := rotRight x 2 ^^^ rotRight x 13 ^^^ rotRight x 22
def ep1 (x : UInt32) : UInt32 := rotRight x 6 ^^^ rotRight x 11 ^^^ rotRight x 25
def sig0 (x : UInt32) : UInt32 := rotRight x 7 ^^^ rotRight x 18 ^^^ (x >>> 3)
def sig1 (x : UInt32) : UInt32 := rotRight x 17 ^^^ rotRight x 19 ^^^ (x >>> 10)

/-- The round constants. -/
def k : List UInt32 :=
  [0x428a2f98,0x71374491,0xb5c0fbcf,0xe9b5dba5,0x3956c25b,0x59f111f1,0x923f82a4,0xab1c5ed5,
   0xd807aa98,0x12835b01,0x243185be,0x550c7dc3,0x72be5d74,0x80deb1fe,0x9bdc06a7,0xc19bf174,
   0xe49b69c1,0xefbe4786,0x0fc19dc6,0x240ca1cc,0x2de92c6f,0x4a7484aa,0x5cb0a9dc,0x76f988da,
   0x983e5152,0xa831c66d,0xb00327c8,0xbf597fc7,0xc6e00bf3,0xd5a79147,0x06ca6351,0x14292967,
   0x27b70a85,0x2e1b2138,0x4d2c6dfc,0x53380d13,0x650a7354,0x766a0abb,0x81c2c92e,0x92722c85,
   0xa2bfe8a1,0xa81a664b,0xc24b8b70,0xc76c51a3,0xd192e819,0xd6990624,0xf40e3585,0x106aa070,
   0x19a4c116,0x1e376c08,0x2748774c,0x34b0bcb5,0x391c0cb3,0x4ed8aa4a,0x5b9cca4f,0x682e6ff3,
   0x748f82ee,0x78a5636f,0x84c87814,0x8cc70208,0x90befffa,0xa4506ceb,0xbef9a3f7,0xc67178f2]

/-- The eight chaining words `state[0..7]`. -/
structure Words where
  (a b c d e f g h : UInt32)

def Words.toList (w : Words) : List UInt32 := [w.a, w.b, w.c, w.d, w.e, w.f, w.g, w.h]

/-- Big-endian input words `m[0..15]` of a block. -/
def inputWords : Bytes → List UInt32
  | b0 :: b1 :: b2 :: b3 :: rest =>
    ((b0.toUInt32 <<< 24) ||| (b1.toUInt32 <<< 16) ||| (b2.toUInt32 <<< 8) ||| b3.toUInt32) ::
      inputWords rest
  | _ => []

/-- The next schedule word from the words computed so far, latest first. -/
def nextWord (m : List UInt32) : UInt32 :=
  sig1 (m.getD 1 0) + m.getD 6 0 + sig0 (m.getD 14 0) + m.getD 15 0

/-- `n` further schedule words, latest first. -/
def schedule : ℕ → List UInt32 → List UInt32
  | 0, m => m
  | n + 1, m => schedule n (nextWord m :: m)

def round (w : Words) (km : UInt32 × UInt32) : Words :=
  let t1 := w.h + ep1 w.e + ch w.e w.f w.g + km.1 + km.2
  let t2 := ep0 w.a + maj w.a w.b w.c
  ⟨t1 + t2, w.a, w.b, w.c, w.d + t1, w.e, w.f, w.g⟩

def transform (s : Words) (block : Bytes) : Words :=
  let m := (schedule 48 (inputWords block).reverse).reverse
  let w := (k.zip m).foldl round s
  ⟨s.a + w.a, s.b + w.b, s.c + w.c, s.d + w.d, s.e + w.e, s.f + w.f, s.g + w.g, s.h + w.h⟩

/-- `SHA256_CTX`; `data` holds the buffered bytes, its length is `datalen`. -/
structure Ctx where
  data : Bytes
  bitlen : UInt64
  state : Words

def init : Ctx where
  data := []
  bitlen := 0
  state := ⟨0x6a09e667, 0xbb67ae85, 0x3c6ef372, 0xa54ff53a,
    0x510e527f, 0x9b05688c, 0x1f83d9ab, 0x5be0cd19⟩

/-- One iteration of the loop of `sha256_update`. -/
def push (ctx : Ctx) (b : UInt8) : Ctx :=
  let data := ctx.data ++ [b]
  if data.length = 64 then ⟨[], ctx.bitlen + 512, transform ctx.state data⟩
  else { ctx with data := data }

/-- The loop counts in a 32-bit word, so this stands for pieces shorter than `2 ^ 32` bytes; the
callers hand over no longer ones. -/
def update (ctx : Ctx) (data : Bytes) : Ctx := data.foldl push ctx

/-- The eight bytes of the message length, big end first. -/
def lengthBytes (bitlen : UInt64) : Bytes :=
  ([56, 48, 40, 32, 24, 16, 8, 0] : List UInt64).map (fun i => (bitlen >>> i).toUInt8)

def wordBytes (w : UInt32) : Bytes :=
  ([24, 16, 8, 0] : List UInt32).map (fun i => (w >>> i).toUInt8)

/-- Padding and the last one or two blocks; the state words are written big end first. -/
def finalWords (ctx : Ctx) : Words :=
  let datalen := ctx.data.length
  let tail := lengthBytes (ctx.bitlen + 8 * UInt64.ofNat datalen)
  if datalen < 56 then
    transform ctx.state (ctx.data ++ 0x80 :: List.replicate (55 - datalen) 0 ++ tail)
  else
    let full := transform ctx.state (ctx.data ++ 0x80 :: List.replicate (63 - datalen) 0)
    transform full (List.replicate 56 0 ++ tail)

def final (ctx : Ctx) : Digest where
  bytes := (finalWords ctx).toList.flatMap wordBytes
  size := rfl

end Sha256

/-- The digest of one message. -/
def sha256 (data : Bytes) : Digest := Sha256.final (Sha256.update Sha256.init data)

/-- Feeding a message in pieces is feeding it whole. -/
theorem Sha256.update_append (ctx : Sha256.Ctx) (x y : Bytes) :
    Sha256.update ctx (x ++ y) = Sha256.update (Sha256.update ctx x) y :=
  List.foldl_append

end Swayclip
