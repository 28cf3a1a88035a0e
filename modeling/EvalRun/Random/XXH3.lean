/-! # Random.XXH3 — the 64-bit XXH3 hash of a byte string

    The generator that pads a topic is seeded with a hash of the topic id, so
    that every topic has an order of its own. The hash is XXH3 with 64 bits of
    output, seed zero and the default secret. It treats five ranges of lengths
    separately, and all of them read the input and the secret as little-endian
    words.
-/

namespace EvalRun.Random.XXH3

/-! ### Constants -/

def prime32x1 : UInt64 := 0x9E3779B1
def prime32x2 : UInt64 := 0x85EBCA77
def prime32x3 : UInt64 := 0xC2B2AE3D
def prime64x1 : UInt64 := 0x9E3779B185EBCA87
def prime64x2 : UInt64 := 0xC2B2AE3D27D4EB4F
def prime64x3 : UInt64 := 0x165667B19E3779F9
def prime64x4 : UInt64 := 0x85EBCA77C2B2AE63
def prime64x5 : UInt64 := 0x27D4EB2F165667C5
def primeMix1 : UInt64 := 0x165667919E3779F9
def primeMix2 : UInt64 := 0x9FB21C651E98DF25

/-- The default secret, 192 bytes. -/
def secret : Array UInt8 := #[
  0xb8, 0xfe, 0x6c, 0x39, 0x23, 0xa4, 0x4b, 0xbe, 0x7c, 0x01, 0x81, 0x2c, 0xf7, 0x21, 0xad, 0x1c,
  0xde, 0xd4, 0x6d, 0xe9, 0x83, 0x90, 0x97, 0xdb, 0x72, 0x40, 0xa4, 0xa4, 0xb7, 0xb3, 0x67, 0x1f,
  0xcb, 0x79, 0xe6, 0x4e, 0xcc, 0xc0, 0xe5, 0x78, 0x82, 0x5a, 0xd0, 0x7d, 0xcc, 0xff, 0x72, 0x21,
  0xb8, 0x08, 0x46, 0x74, 0xf7, 0x43, 0x24, 0x8e, 0xe0, 0x35, 0x90, 0xe6, 0x81, 0x3a, 0x26, 0x4c,
  0x3c, 0x28, 0x52, 0xbb, 0x91, 0xc3, 0x00, 0xcb, 0x88, 0xd0, 0x65, 0x8b, 0x1b, 0x53, 0x2e, 0xa3,
  0x71, 0x64, 0x48, 0x97, 0xa2, 0x0d, 0xf9, 0x4e, 0x38, 0x19, 0xef, 0x46, 0xa9, 0xde, 0xac, 0xd8,
  0xa8, 0xfa, 0x76, 0x3f, 0xe3, 0x9c, 0x34, 0x3f, 0xf9, 0xdc, 0xbb, 0xc7, 0xc7, 0x0b, 0x4f, 0x1d,
  0x8a, 0x51, 0xe0, 0x4b, 0xcd, 0xb4, 0x59, 0x31, 0xc8, 0x9f, 0x7e, 0xc9, 0xd9, 0x78, 0x73, 0x64,
  0xea, 0xc5, 0xac, 0x83, 0x34, 0xd3, 0xeb, 0xc3, 0xc5, 0x81, 0xa0, 0xff, 0xfa, 0x13, 0x63, 0xeb,
  0x17, 0x0d, 0xdd, 0x51, 0xb7, 0xf0, 0xda, 0x49, 0xd3, 0x16, 0x55, 0x26, 0x29, 0xd4, 0x68, 0x9e,
  0x2b, 0x16, 0xbe, 0x58, 0x7d, 0x47, 0xa1, 0xfc, 0x8f, 0xf8, 0xb8, 0xd1, 0x7a, 0xd0, 0x31, 0xce,
  0x45, 0xcb, 0x3a, 0x8f, 0x95, 0x16, 0x04, 0x28, 0xaf, 0xd7, 0xfb, 0xca, 0xbb, 0x4b, 0x40, 0x7e]

/-! ### Words -/

/-- The little-endian word of `size` bytes from a position on. -/
def word (bytes : Array UInt8) (position : Nat) : Nat → UInt64
  | 0 => 0
  | size + 1 =>
    (bytes.getD position 0).toUInt64 + (word bytes (position + 1) size <<< 8)

/-- Four bytes as a word. -/
def word32 (bytes : Array UInt8) (position : Nat) : UInt64 := word bytes position 4

/-- Eight bytes as a word. -/
def word64 (bytes : Array UInt8) (position : Nat) : UInt64 := word bytes position 8

def rotateLeft (x : UInt64) (k : UInt64) : UInt64 := (x <<< k) ||| (x >>> (64 - k))

/-- The bytes of a word in reverse. -/
def swapBytes (x : UInt64) : UInt64 :=
  (List.range 8).foldl (fun r i => (r <<< 8) ||| ((x >>> UInt64.ofNat (8 * i)) &&& 0xFF)) 0

/-- The two halves of a product of 128 bits, combined. -/
def foldedProduct (x y : UInt64) : UInt64 :=
  let product := x.toNat * y.toNat
  UInt64.ofNat product ^^^ UInt64.ofNat (product / 0x10000000000000000)

/-- The final mixing of the short lengths. -/
def avalancheShort (h : UInt64) : UInt64 :=
  let h := (h ^^^ (h >>> 33)) * prime64x2
  let h := (h ^^^ (h >>> 29)) * prime64x3
  h ^^^ (h >>> 32)

/-- The final mixing of the other lengths. -/
def avalanche (h : UInt64) : UInt64 :=
  let h := (h ^^^ (h >>> 37)) * primeMix1
  h ^^^ (h >>> 32)

/-! ### Lengths up to 16 -/

def hashEmpty : UInt64 := avalancheShort (word64 secret 56 ^^^ word64 secret 64)

def hash1to3 (input : Array UInt8) : UInt64 :=
  let n := input.size
  let first := word input 0 1
  let middle := word input (n / 2) 1
  let last := word input (n - 1) 1
  let combined := (first <<< 16) ||| (middle <<< 24) ||| last ||| (UInt64.ofNat n <<< 8)
  avalancheShort (combined ^^^ (word32 secret 0 ^^^ word32 secret 4))

def hash4to8 (input : Array UInt8) : UInt64 :=
  let n := input.size
  let combined := word32 input (n - 4) + (word32 input 0 <<< 32)
  let h := combined ^^^ (word64 secret 8 ^^^ word64 secret 16)
  let h := (h ^^^ rotateLeft h 49 ^^^ rotateLeft h 24) * primeMix2
  let h := (h ^^^ ((h >>> 35) + UInt64.ofNat n)) * primeMix2
  h ^^^ (h >>> 28)

def hash9to16 (input : Array UInt8) : UInt64 :=
  let n := input.size
  let low := word64 input 0 ^^^ (word64 secret 24 ^^^ word64 secret 32)
  let high := word64 input (n - 8) ^^^ (word64 secret 40 ^^^ word64 secret 48)
  avalanche (UInt64.ofNat n + swapBytes low + high + foldedProduct low high)

/-! ### Lengths up to 240 -/

/-- The mix of 16 bytes of the input with 16 bytes of the secret. -/
def mix (input : Array UInt8) (position secretPosition : Nat) : UInt64 :=
  foldedProduct (word64 input position ^^^ word64 secret secretPosition)
    (word64 input (position + 8) ^^^ word64 secret (secretPosition + 8))

/-- The sum of the mixes at pairs of positions. -/
def mixAll (input : Array UInt8) (start : UInt64) (positions : List (Nat × Nat)) : UInt64 :=
  positions.foldl (fun acc (p, q) => acc + mix input p q) start

def hash17to128 (input : Array UInt8) : UInt64 :=
  let n := input.size
  -- Pairs of pieces from both ends, as many as the length has full 32 bytes.
  let pairs := (List.range ((n - 1) / 32 + 1)).flatMap fun i =>
    [(16 * i, 32 * i), (n - 16 * (i + 1), 32 * i + 16)]
  avalanche (mixAll input (UInt64.ofNat n * prime64x1) pairs)

def hash129to240 (input : Array UInt8) : UInt64 :=
  let n := input.size
  let first := (List.range 8).map fun i => (16 * i, 16 * i)
  let acc := avalanche (mixAll input (UInt64.ofNat n * prime64x1) first)
  let others := (List.range (n / 16 - 8)).map fun i => (16 * (i + 8), 16 * i + 3)
  avalanche (mixAll input acc (others ++ [(n - 16, 119)]))

/-! ### Longer inputs -/

/-- The eight accumulators at the start. -/
def accumulators : Array UInt64 :=
  #[prime32x3, prime64x1, prime64x2, prime64x3, prime64x4, prime32x2, prime64x5, prime32x1]

/-- The accumulators after one stripe of 64 bytes. Each word goes to its
    neighbour as it is, and to its own place as the product of its halves. -/
def stripe (input : Array UInt8) (acc : Array UInt64) (position secretPosition : Nat) :
    Array UInt64 :=
  (Array.range 8).map fun i =>
    let keyed := word64 input (position + 8 * i) ^^^ word64 secret (secretPosition + 8 * i)
    let neighbour := if i % 2 = 0 then i + 1 else i - 1
    acc.getD i 0 + word64 input (position + 8 * neighbour) +
      (keyed &&& (0xFFFFFFFF : UInt64)) * (keyed >>> 32)

/-- The accumulators after stripes that follow one another. -/
def stripes (input : Array UInt8) (acc : Array UInt64) (position count : Nat) : Array UInt64 :=
  (List.range count).foldl (fun acc i => stripe input acc (position + 64 * i) (8 * i)) acc

/-- The accumulators mixed at the end of a block. -/
def scramble (acc : Array UInt64) : Array UInt64 :=
  (Array.range 8).map fun i =>
    let a := acc.getD i 0
    ((a ^^^ (a >>> 47)) ^^^ word64 secret (128 + 8 * i)) * prime32x1

def hashLong (input : Array UInt8) : UInt64 :=
  let n := input.size
  let blocks := (n - 1) / 1024
  let acc := (List.range blocks).foldl
    (fun acc b => scramble (stripes input acc (1024 * b) 16)) accumulators
  let acc := stripes input acc (1024 * blocks) ((n - 1 - 1024 * blocks) / 64)
  let acc := stripe input acc (n - 64) 121
  avalanche <| (List.range 4).foldl
    (fun h i => h + foldedProduct (acc.getD (2 * i) 0 ^^^ word64 secret (11 + 16 * i))
      (acc.getD (2 * i + 1) 0 ^^^ word64 secret (19 + 16 * i)))
    (UInt64.ofNat n * prime64x1)

/-! ### All lengths -/

/-- The hash of a byte string. -/
def hash (input : Array UInt8) : UInt64 :=
  let n := input.size
  if n = 0 then hashEmpty
  else if n ≤ 3 then hash1to3 input
  else if n ≤ 8 then hash4to8 input
  else if n ≤ 16 then hash9to16 input
  else if n ≤ 128 then hash17to128 input
  else if n ≤ 240 then hash129to240 input
  else hashLong input

/-- The hash of a text, taken over its UTF-8 bytes. -/
def hashText (s : String) : UInt64 := hash s.toUTF8.data

end EvalRun.Random.XXH3
