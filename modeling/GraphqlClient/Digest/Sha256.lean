import GraphqlClient.Text.Hex

/-!
# SHA-256

The digest of a list of bytes: blocks of sixteen words, sixty-four rounds each.
-/

namespace GraphqlClient.Digest

/-- The eight working words. -/
structure Words where
  a : UInt32
  b : UInt32
  c : UInt32
  d : UInt32
  e : UInt32
  f : UInt32
  g : UInt32
  h : UInt32

namespace Words

/-- Word by word addition. -/
def add (x y : Words) : Words :=
  ⟨x.a + y.a, x.b + y.b, x.c + y.c, x.d + y.d, x.e + y.e, x.f + y.f, x.g + y.g, x.h + y.h⟩

/-- The words in order. -/
def toList (x : Words) : List UInt32 := [x.a, x.b, x.c, x.d, x.e, x.f, x.g, x.h]

/-- The words before the first block. -/
def initial : Words :=
  ⟨0x6a09e667, 0xbb67ae85, 0x3c6ef372, 0xa54ff53a, 0x510e527f, 0x9b05688c, 0x1f83d9ab, 0x5be0cd19⟩

end Words

/-- The constants of the rounds. -/
def roundConstants : List UInt32 :=
  [0x428a2f98, 0x71374491, 0xb5c0fbcf, 0xe9b5dba5, 0x3956c25b, 0x59f111f1, 0x923f82a4, 0xab1c5ed5,
   0xd807aa98, 0x12835b01, 0x243185be, 0x550c7dc3, 0x72be5d74, 0x80deb1fe, 0x9bdc06a7, 0xc19bf174,
   0xe49b69c1, 0xefbe4786, 0x0fc19dc6, 0x240ca1cc, 0x2de92c6f, 0x4a7484aa, 0x5cb0a9dc, 0x76f988da,
   0x983e5152, 0xa831c66d, 0xb00327c8, 0xbf597fc7, 0xc6e00bf3, 0xd5a79147, 0x06ca6351, 0x14292967,
   0x27b70a85, 0x2e1b2138, 0x4d2c6dfc, 0x53380d13, 0x650a7354, 0x766a0abb, 0x81c2c92e, 0x92722c85,
   0xa2bfe8a1, 0xa81a664b, 0xc24b8b70, 0xc76c51a3, 0xd192e819, 0xd6990624, 0xf40e3585, 0x106aa070,
   0x19a4c116, 0x1e376c08, 0x2748774c, 0x34b0bcb5, 0x391c0cb3, 0x4ed8aa4a, 0x5b9cca4f, 0x682e6ff3,
   0x748f82ee, 0x78a5636f, 0x84c87814, 0x8cc70208, 0x90befffa, 0xa4506ceb, 0xbef9a3f7, 0xc67178f2]

/-- Rotation to the right by fewer than 32 bits. -/
def rotateRight (x n : UInt32) : UInt32 := (x >>> n) ||| (x <<< (32 - n))

/-- One round with a constant and a word of the schedule. -/
def round (s : Words) (k w : UInt32) : Words :=
  let sum1 := rotateRight s.e 6 ^^^ rotateRight s.e 11 ^^^ rotateRight s.e 25
  let choice := (s.e &&& s.f) ^^^ (~~~s.e &&& s.g)
  let t1 := s.h + sum1 + choice + k + w
  let sum0 := rotateRight s.a 2 ^^^ rotateRight s.a 13 ^^^ rotateRight s.a 22
  let majority := (s.a &&& s.b) ^^^ (s.a &&& s.c) ^^^ (s.b &&& s.c)
  ⟨t1 + sum0 + majority, s.a, s.b, s.c, s.d + t1, s.e, s.f, s.g⟩

/-- The word of the schedule that follows sixteen given ones. -/
def nextWord (window : Array UInt32) : UInt32 :=
  let w (i : Nat) : UInt32 := window.getD i 0
  let s0 := rotateRight (w 1) 7 ^^^ rotateRight (w 1) 18 ^^^ (w 1 >>> 3)
  let s1 := rotateRight (w 14) 17 ^^^ rotateRight (w 14) 19 ^^^ (w 14 >>> 10)
  w 0 + s0 + w 9 + s1

/-- The rounds with the constants that are left, over a window of sixteen words. -/
def rounds : List UInt32 → Array UInt32 → Words → Words
  | [], _, s => s
  | k :: ks, window, s =>
    rounds ks ((window.extract 1 16).push (nextWord window)) (round s k (window.getD 0 0))

/-- The words after one more block. -/
def compress (s : Words) (block : List UInt32) : Words :=
  s.add (rounds roundConstants block.toArray s)

/-- The words after a number of blocks. -/
def compressAll : Nat → List UInt32 → Words → Words
  | 0, _, s => s
  | n + 1, words, s => compressAll n (words.drop 16) (compress s (words.take 16))

/-- Bytes as words, the most significant byte first. -/
def wordsOfBytes : List UInt8 → List UInt32
  | a :: b :: c :: d :: rest =>
    ((a.toUInt32 <<< 24) ||| (b.toUInt32 <<< 16) ||| (c.toUInt32 <<< 8) ||| d.toUInt32)
      :: wordsOfBytes rest
  | _ => []

/-- The bytes of a word, the most significant one first. -/
def bytesOfWord (w : UInt32) : List UInt8 :=
  [(w >>> 24).toUInt8, (w >>> 16).toUInt8, (w >>> 8).toUInt8, w.toUInt8]

/-- What fills a message of so many bytes up to whole blocks: a one bit, zeros, and its length. -/
def padding (length : Nat) : List UInt8 :=
  let bits := UInt64.ofNat (8 * length)
  0x80 :: List.replicate ((119 - length % 64) % 64) (0 : UInt8)
    ++ bytesOfWord (bits >>> 32).toUInt32 ++ bytesOfWord bits.toUInt32

/-- The digest of a message. -/
def sha256 (message : List UInt8) : List UInt8 :=
  let words := wordsOfBytes (message ++ padding message.length)
  (compressAll (words.length / 16) words .initial).toList.flatMap bytesOfWord

/-- The digest of the UTF-8 bytes of a text, as hexadecimal digits. -/
def hexDigest (text : String) : String :=
  String.ofList (Text.hex (sha256 text.toUTF8.toList))

@[simp] theorem length_sha256 (message : List UInt8) : (sha256 message).length = 32 := rfl

@[simp] theorem length_toList_hexDigest (text : String) : (hexDigest text).toList.length = 64 := by
  simp [hexDigest]

end GraphqlClient.Digest
