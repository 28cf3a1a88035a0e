/-! # Random.Generator — the stream of random words

    The generator is ChaCha with twelve rounds, run in counter mode: block `n`
    of the stream is the mixed state that holds the key and the number `n`.
    The key is expanded from a 64-bit seed by a linear congruential generator
    whose outputs are permuted.

    A generator is a value. Drawing returns the word and the generator behind
    it, so a stream depends on nothing but its seed.
-/

namespace EvalRun.Random

/-! ### The block function -/

def rotateLeft32 (x : UInt32) (k : UInt32) : UInt32 := (x <<< k) ||| (x >>> (32 - k))

/-- One quarter round on the words at four places. -/
def quarterRound (s : Array UInt32) (a b c d : Nat) : Array UInt32 :=
  let wa := s.getD a 0
  let wb := s.getD b 0
  let wc := s.getD c 0
  let wd := s.getD d 0
  let wa := wa + wb
  let wd := rotateLeft32 (wd ^^^ wa) 16
  let wc := wc + wd
  let wb := rotateLeft32 (wb ^^^ wc) 12
  let wa := wa + wb
  let wd := rotateLeft32 (wd ^^^ wa) 8
  let wc := wc + wd
  let wb := rotateLeft32 (wb ^^^ wc) 7
  (((s.setIfInBounds a wa).setIfInBounds b wb).setIfInBounds c wc).setIfInBounds d wd

/-- A round on the columns of the state and a round on its diagonals. -/
def doubleRound (s : Array UInt32) : Array UInt32 :=
  let s := quarterRound s 0 4 8 12
  let s := quarterRound s 1 5 9 13
  let s := quarterRound s 2 6 10 14
  let s := quarterRound s 3 7 11 15
  let s := quarterRound s 0 5 10 15
  let s := quarterRound s 1 6 11 12
  let s := quarterRound s 2 7 8 13
  quarterRound s 3 4 9 14

/-- The first four words of every state. -/
def chachaConstants : Array UInt32 := #[0x61707865, 0x3320646e, 0x79622d32, 0x6b206574]

/-- Sixteen words of the stream: the state of the key and the block number,
    mixed by twelve rounds and added to itself. -/
def keystreamBlock (key : Array UInt32) (block : UInt64) : List UInt32 :=
  let start := chachaConstants ++ key ++ #[block.toUInt32, (block >>> 32).toUInt32, 0, 0]
  let mixed := (List.range 6).foldl (fun s _ => doubleRound s) start
  List.zipWith (· + ·) mixed.toList start.toList

/-! ### The key -/

/-- The next state of the congruential generator. -/
def advanceSeed (s : UInt64) : UInt64 := s * 6364136223846793005 + 11634580027462260723

/-- The word of a state: its high bits, rotated by its highest. -/
def seedWord (s : UInt64) : UInt32 :=
  let word := (((s >>> 18) ^^^ s) >>> 27).toUInt32
  let turn := (s >>> 59).toUInt32
  (word >>> turn) ||| (word <<< ((32 - turn) % 32))

/-- The words of `count` states that follow a state. -/
def seedWords (s : UInt64) : Nat → List UInt32
  | 0 => []
  | count + 1 => seedWord (advanceSeed s) :: seedWords (advanceSeed s) count

/-! ### Drawing -/

/-- A stream of random words and how far it has been read. -/
structure Generator where
  /-- The eight words of the key. -/
  key : Array UInt32
  /-- The number of the next block. -/
  block : UInt64
  /-- The words of the current block that are still to be drawn. -/
  pending : List UInt32

namespace Generator

/-- The generator of a seed, at the start of its stream. -/
def ofSeed (seed : UInt64) : Generator := ⟨(seedWords seed 8).toArray, 0, []⟩

/-- Draws a word of 32 bits. -/
def next32 (g : Generator) : UInt32 × Generator :=
  match g.pending with
  | word :: rest => (word, { g with pending := rest })
  | [] =>
    match keystreamBlock g.key g.block with
    | word :: rest => (word, { g with block := g.block + 1, pending := rest })
    | [] => (0, g)

/-- Draws a word of 64 bits, its low half first. -/
def next64 (g : Generator) : UInt64 × Generator :=
  let (low, g) := g.next32
  let (high, g) := g.next32
  (low.toUInt64 ||| (high.toUInt64 <<< 32), g)

/-- Draws a number below `n` with equal chances. The product of `n` and a word
    has the number in its high half; words whose low half lies beyond the
    largest multiple that is cut evenly are drawn again. More than half of all
    words are taken, so the limit of tries is never met in practice. -/
def below (n : Nat) (g : Generator) : Nat → Nat × Generator
  | 0 => (0, g)
  | tries + 1 =>
    let zone := n * Nat.pow 2 (31 - Nat.log2 n) - 1
    let (word, g) := g.next32
    let product := word.toNat * n
    if product % 0x100000000 ≤ zone then (product / 0x100000000, g) else below n g tries

/-- How often a draw is repeated at most. -/
def maxTries : Nat := 1000

/-- Exchanges each element, from the last to the second, with one drawn from
    those up to itself. -/
def shuffleDown {α : Type} (g : Generator) (xs : Array α) : Nat → Array α × Generator
  | 0 => (xs, g)
  | i + 1 =>
    let (j, g) := g.below (i + 2) maxTries
    shuffleDown g (xs.swapIfInBounds (i + 1) j) i

/-- A random order of a list, and the generator behind it. -/
def shuffle {α : Type} (g : Generator) (xs : List α) : List α × Generator :=
  let (shuffled, g) := g.shuffleDown xs.toArray (xs.length - 1)
  (shuffled.toList, g)

end Generator

end EvalRun.Random
