/-!
# SHA-256

The digest of a sequence of octets. The message is padded to whole blocks of
sixty-four octets, every block is stretched to a schedule of sixty-four words,
and each word drives one round of the eight chaining words.
-/

namespace StackTemplate.Digest

/-- The constants added in the rounds: the first thirty-two bits of the
fractional parts of the cube roots of the first sixty-four primes. -/
def roundConstants : List UInt32 := [
  0x428a2f98, 0x71374491, 0xb5c0fbcf, 0xe9b5dba5, 0x3956c25b, 0x59f111f1, 0x923f82a4, 0xab1c5ed5,
  0xd807aa98, 0x12835b01, 0x243185be, 0x550c7dc3, 0x72be5d74, 0x80deb1fe, 0x9bdc06a7, 0xc19bf174,
  0xe49b69c1, 0xefbe4786, 0x0fc19dc6, 0x240ca1cc, 0x2de92c6f, 0x4a7484aa, 0x5cb0a9dc, 0x76f988da,
  0x983e5152, 0xa831c66d, 0xb00327c8, 0xbf597fc7, 0xc6e00bf3, 0xd5a79147, 0x06ca6351, 0x14292967,
  0x27b70a85, 0x2e1b2138, 0x4d2c6dfc, 0x53380d13, 0x650a7354, 0x766a0abb, 0x81c2c92e, 0x92722c85,
  0xa2bfe8a1, 0xa81a664b, 0xc24b8b70, 0xc76c51a3, 0xd192e819, 0xd6990624, 0xf40e3585, 0x106aa070,
  0x19a4c116, 0x1e376c08, 0x2748774c, 0x34b0bcb5, 0x391c0cb3, 0x4ed8aa4a, 0x5b9cca4f, 0x682e6ff3,
  0x748f82ee, 0x78a5636f, 0x84c87814, 0x8cc70208, 0x90befffa, 0xa4506ceb, 0xbef9a3f7, 0xc67178f2]

/-- The eight words carried from block to block. -/
structure Chain where
  /-- First word. -/
  a : UInt32
  /-- Second word. -/
  b : UInt32
  /-- Third word. -/
  c : UInt32
  /-- Fourth word. -/
  d : UInt32
  /-- Fifth word. -/
  e : UInt32
  /-- Sixth word. -/
  f : UInt32
  /-- Seventh word. -/
  g : UInt32
  /-- Eighth word. -/
  h : UInt32

/-- The first thirty-two bits of the fractional parts of the square roots of
the first eight primes. -/
def Chain.initial : Chain :=
  ⟨0x6a09e667, 0xbb67ae85, 0x3c6ef372, 0xa54ff53a, 0x510e527f, 0x9b05688c, 0x1f83d9ab, 0x5be0cd19⟩

/-- Wordwise addition. -/
def Chain.add (x y : Chain) : Chain :=
  ⟨x.a + y.a, x.b + y.b, x.c + y.c, x.d + y.d, x.e + y.e, x.f + y.f, x.g + y.g, x.h + y.h⟩

/-- The words in order. -/
def Chain.words (x : Chain) : List UInt32 := [x.a, x.b, x.c, x.d, x.e, x.f, x.g, x.h]

/-- Rotation to the right, by fewer than thirty-two places. -/
def rotate (w : UInt32) (n : UInt32) : UInt32 := (w >>> n) ||| (w <<< (32 - n))

/-- One round, driven by a schedule word to which its constant is added. -/
def Chain.round (x : Chain) (driven : UInt32) : Chain :=
  let s1 := rotate x.e 6 ^^^ rotate x.e 11 ^^^ rotate x.e 25
  let choice := (x.e &&& x.f) ^^^ (~~~x.e &&& x.g)
  let t1 := x.h + s1 + choice + driven
  let s0 := rotate x.a 2 ^^^ rotate x.a 13 ^^^ rotate x.a 22
  let majority := (x.a &&& x.b) ^^^ (x.a &&& x.c) ^^^ (x.b &&& x.c)
  ⟨t1 + (s0 + majority), x.a, x.b, x.c, x.d + t1, x.e, x.f, x.g⟩

/-- Four octets as one word, the most significant first. -/
def word (a b c d : UInt8) : UInt32 :=
  (a.toUInt32 <<< 24) ||| (b.toUInt32 <<< 16) ||| (c.toUInt32 <<< 8) ||| d.toUInt32

/-- The words of a sequence of octets; up to three octets at the end that do
not fill a word are dropped. -/
def words : List UInt8 → List UInt32
  | a :: b :: c :: d :: rest => word a b c d :: words rest
  | _ => []

/-- Extends a schedule by `count` words. The words are kept with the latest
one first: a new word depends on the 2nd, 7th, 15th and 16th word before it. -/
def stretch : Nat → List UInt32 → List UInt32
  | 0, latest => latest
  | count + 1, latest =>
    let w2 := latest.getD 1 0
    let w7 := latest.getD 6 0
    let w15 := latest.getD 14 0
    let w16 := latest.getD 15 0
    let s0 := rotate w15 7 ^^^ rotate w15 18 ^^^ (w15 >>> 3)
    let s1 := rotate w2 17 ^^^ rotate w2 19 ^^^ (w2 >>> 10)
    stretch count ((w16 + s0 + w7 + s1) :: latest)

/-- The schedule of a block of sixteen words. -/
def schedule (block : List UInt32) : List UInt32 := (stretch 48 block.reverse).reverse

/-- The chaining words after a block. -/
def Chain.compress (x : Chain) (block : List UInt32) : Chain :=
  let driven := (schedule block).zipWith (· + ·) roundConstants
  x.add (driven.foldl Chain.round x)

/-- The chaining words after all blocks. The first argument bounds the number
of blocks. -/
def Chain.absorb : Nat → Chain → List UInt32 → Chain
  | 0, x, _ => x
  | blocks + 1, x, ws => absorb blocks (x.compress (ws.take 16)) (ws.drop 16)

/-- The message, a one bit, zeros up to eight octets short of a whole block,
and the length of the message in bits. -/
def pad (message : List UInt8) : List UInt8 :=
  let length := message.length
  let zeros := (119 - length % 64) % 64
  let bits := (UInt64.ofNat length) * 8
  let octet (shift : UInt64) : UInt8 := (bits >>> shift).toUInt8
  message ++ 0x80 :: List.replicate zeros 0 ++ [56, 48, 40, 32, 24, 16, 8, 0].map octet

/-- The chaining words after the whole padded message. -/
def sha256 (message : List UInt8) : Chain :=
  let padded := pad message
  Chain.initial.absorb (padded.length / 64) (words padded)

/-- The lower-case hexadecimal digit of the four bits from `shift` on. -/
def hexDigit (w shift : UInt32) : Char := Nat.digitChar ((w >>> shift) &&& 0xf).toNat

/-- The eight hexadecimal digits of a word. -/
def hexWord (w : UInt32) : List Char := [28, 24, 20, 16, 12, 8, 4, 0].map (hexDigit w)

/-- The digest of a text in UTF-8, as sixty-four hexadecimal digits. -/
def hex (text : String) : String :=
  String.ofList ((sha256 text.toUTF8.toList).words.flatMap hexWord)

/-- A word has eight hexadecimal digits. -/
@[simp] theorem length_hexWord (w : UInt32) : (hexWord w).length = 8 := rfl

/-- Every digest has sixty-four hexadecimal digits. -/
@[simp] theorem length_hex (text : String) : (hex text).length = 64 := by
  simp [hex, Chain.words, ← String.length_toList]

end StackTemplate.Digest
