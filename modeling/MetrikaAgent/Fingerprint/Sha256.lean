/-
SHA-256 as `crypto/sha256` computes it (FIPS 180-4, section 6.2).

`New` in the fingerprint package writes its input into a `sha256.New()` digest and reads
`Sum(nil)`.  The digest is an `io.Writer` whose `Write` takes every byte and never fails,
and whose `Sum` is the hash of what was written; that is all `New` relies on, and
`sum256_length` is the one fact about the hash itself that the proofs use.
-/
import MetrikaAgent.Io

namespace MetrikaAgent
namespace Sha256

def blockSize : Nat := 64

structure Words where
  a : UInt32
  b : UInt32
  c : UInt32
  d : UInt32
  e : UInt32
  f : UInt32
  g : UInt32
  h : UInt32

def k : List UInt32 :=
  [0x428a2f98, 0x71374491, 0xb5c0fbcf, 0xe9b5dba5, 0x3956c25b, 0x59f111f1, 0x923f82a4, 0xab1c5ed5,
   0xd807aa98, 0x12835b01, 0x243185be, 0x550c7dc3, 0x72be5d74, 0x80deb1fe, 0x9bdc06a7, 0xc19bf174,
   0xe49b69c1, 0xefbe4786, 0x0fc19dc6, 0x240ca1cc, 0x2de92c6f, 0x4a7484aa, 0x5cb0a9dc, 0x76f988da,
   0x983e5152, 0xa831c66d, 0xb00327c8, 0xbf597fc7, 0xc6e00bf3, 0xd5a79147, 0x06ca6351, 0x14292967,
   0x27b70a85, 0x2e1b2138, 0x4d2c6dfc, 0x53380d13, 0x650a7354, 0x766a0abb, 0x81c2c92e, 0x92722c85,
   0xa2bfe8a1, 0xa81a664b, 0xc24b8b70, 0xc76c51a3, 0xd192e819, 0xd6990624, 0xf40e3585, 0x106aa070,
   0x19a4c116, 0x1e376c08, 0x2748774c, 0x34b0bcb5, 0x391c0cb3, 0x4ed8aa4a, 0x5b9cca4f, 0x682e6ff3,
   0x748f82ee, 0x78a5636f, 0x84c87814, 0x8cc70208, 0x90befffa, 0xa4506ceb, 0xbef9a3f7, 0xc67178f2]

def init : Words :=
  ⟨0x6a09e667, 0xbb67ae85, 0x3c6ef372, 0xa54ff53a, 0x510e527f, 0x9b05688c, 0x1f83d9ab, 0x5be0cd19⟩

def rotr (x n : UInt32) : UInt32 := (x >>> n) ||| (x <<< (32 - n))

def bigSigma0 (x : UInt32) : UInt32 := rotr x 2 ^^^ rotr x 13 ^^^ rotr x 22

def bigSigma1 (x : UInt32) : UInt32 := rotr x 6 ^^^ rotr x 11 ^^^ rotr x 25

def smallSigma0 (x : UInt32) : UInt32 := rotr x 7 ^^^ rotr x 18 ^^^ (x >>> 3)

def smallSigma1 (x : UInt32) : UInt32 := rotr x 17 ^^^ rotr x 19 ^^^ (x >>> 10)

def choose (x y z : UInt32) : UInt32 := (x &&& y) ^^^ (~~~x &&& z)

def majority (x y z : UInt32) : UInt32 := (x &&& y) ^^^ (x &&& z) ^^^ (y &&& z)

def wordsOf : Bytes → List UInt32
  | b0 :: b1 :: b2 :: b3 :: rest =>
    ((b0.toUInt32 <<< 24) ||| (b1.toUInt32 <<< 16) ||| (b2.toUInt32 <<< 8) ||| b3.toUInt32) ::
      wordsOf rest
  | _ => []

/-- The message schedule: the sixteen words of a block extended to sixty-four. -/
def schedule (w : List UInt32) : List UInt32 :=
  (List.range 48).foldl (fun ws i =>
    ws ++ [smallSigma1 (ws.getD (i + 14) 0) + ws.getD (i + 9) 0 +
      smallSigma0 (ws.getD (i + 1) 0) + ws.getD i 0]) w

def round (s : Words) (kw : UInt32 × UInt32) : Words :=
  let t1 := s.h + bigSigma1 s.e + choose s.e s.f s.g + kw.1 + kw.2
  let t2 := bigSigma0 s.a + majority s.a s.b s.c
  ⟨t1 + t2, s.a, s.b, s.c, s.d + t1, s.e, s.f, s.g⟩

def compress (s : Words) (block : Bytes) : Words :=
  let r := (k.zip (schedule (wordsOf block))).foldl round s
  ⟨s.a + r.a, s.b + r.b, s.c + r.c, s.d + r.d, s.e + r.e, s.f + r.f, s.g + r.g, s.h + r.h⟩

def lengthBytes (n : Nat) : Bytes := (List.range 8).reverse.map fun i => (n >>> (8 * i)).toUInt8

/-- The message, the `0x80` delimiter, zeros up to eight bytes short of a block boundary,
and the bit length. -/
def pad (m : Bytes) : Bytes :=
  m ++ 0x80 :: List.replicate ((119 - m.length % 64) % 64) 0 ++ lengthBytes (8 * m.length)

def bytesOf (x : UInt32) : Bytes :=
  [(x >>> 24).toUInt8, (x >>> 16).toUInt8, (x >>> 8).toUInt8, x.toUInt8]

def sum256 (m : Bytes) : Bytes :=
  let s := ((pad m).toChunks 64).foldl compress init
  [s.a, s.b, s.c, s.d, s.e, s.f, s.g, s.h].flatMap bytesOf

@[simp] theorem sum256_length (m : Bytes) : (sum256 m).length = 32 := by
  simp [sum256, bytesOf]

/-- A `*sha256.digest`, as the bytes written to it so far.  The real digest keeps the
compressed prefix and a partial block instead; `Sum` depends only on the bytes written. -/
structure Digest where
  written : Bytes

def new : Digest := ⟨[]⟩

/-- `(*digest).Write`: the digest takes every byte and returns `len(p), nil`. -/
def Digest.writer : Writer Digest := ⟨fun p d => ((p.length, none), ⟨d.written ++ p⟩)⟩

def Digest.sum (d : Digest) : Bytes := sum256 d.written

@[simp] theorem writer_write_new (p : Bytes) :
    Digest.writer.write p new = ((p.length, none), ⟨p⟩) := rfl

@[simp] theorem sum_written (p : Bytes) : Digest.sum ⟨p⟩ = sum256 p := rfl

end Sha256
end MetrikaAgent
