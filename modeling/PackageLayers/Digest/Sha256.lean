/-
Purpose: The SHA-256 digest of a sequence of bytes.
Main exports: Sha256.digest
-/

namespace PackageLayers.Sha256

/-!
FIPS 180-4, on lists of bytes.  The message is padded to whole blocks of
sixty-four bytes; every block is stretched to sixty-four words and mixed into a
state of eight words by sixty-four rounds.
-/

/-- The eight words that a block is mixed into. -/
structure State where
  a : UInt32
  b : UInt32
  c : UInt32
  d : UInt32
  e : UInt32
  f : UInt32
  g : UInt32
  h : UInt32
deriving Repr, Inhabited, DecidableEq

/-- The state before the first block: fractional bits of the square roots of the
first eight primes. -/
def initial : State where
  a := 0x6a09e667
  b := 0xbb67ae85
  c := 0x3c6ef372
  d := 0xa54ff53a
  e := 0x510e527f
  f := 0x9b05688c
  g := 0x1f83d9ab
  h := 0x5be0cd19

/-- One word for each round: fractional bits of the cube roots of the first
sixty-four primes. -/
def roundWords : Array UInt32 :=
  #[0x428a2f98, 0x71374491, 0xb5c0fbcf, 0xe9b5dba5, 0x3956c25b, 0x59f111f1,
    0x923f82a4, 0xab1c5ed5, 0xd807aa98, 0x12835b01, 0x243185be, 0x550c7dc3,
    0x72be5d74, 0x80deb1fe, 0x9bdc06a7, 0xc19bf174, 0xe49b69c1, 0xefbe4786,
    0x0fc19dc6, 0x240ca1cc, 0x2de92c6f, 0x4a7484aa, 0x5cb0a9dc, 0x76f988da,
    0x983e5152, 0xa831c66d, 0xb00327c8, 0xbf597fc7, 0xc6e00bf3, 0xd5a79147,
    0x06ca6351, 0x14292967, 0x27b70a85, 0x2e1b2138, 0x4d2c6dfc, 0x53380d13,
    0x650a7354, 0x766a0abb, 0x81c2c92e, 0x92722c85, 0xa2bfe8a1, 0xa81a664b,
    0xc24b8b70, 0xc76c51a3, 0xd192e819, 0xd6990624, 0xf40e3585, 0x106aa070,
    0x19a4c116, 0x1e376c08, 0x2748774c, 0x34b0bcb5, 0x391c0cb3, 0x4ed8aa4a,
    0x5b9cca4f, 0x682e6ff3, 0x748f82ee, 0x78a5636f, 0x84c87814, 0x8cc70208,
    0x90befffa, 0xa4506ceb, 0xbef9a3f7, 0xc67178f2]

/-- A word turned right. -/
def turn (word : UInt32) (count : UInt32) : UInt32 :=
  (word >>> count) ||| (word <<< (32 - count))

/-- The word of four bytes, the first byte highest. -/
def wordOf (bytes : List UInt8) : UInt32 :=
  bytes.foldl (fun word byte => (word <<< 8) ||| byte.toUInt32) 0

/-- The four bytes of a word, the highest first. -/
def bytesOf (word : UInt32) : List UInt8 :=
  [(word >>> 24).toUInt8, (word >>> 16).toUInt8, (word >>> 8).toUInt8,
    word.toUInt8]

/-- The bytes with a one bit, zeros, and their number of bits, so that whole
blocks result. -/
def padded (message : List UInt8) : List UInt8 :=
  let zeros := (119 - message.length % 64) % 64
  let bits := UInt64.ofNat (8 * message.length)
  message ++ ((0x80 : UInt8) :: List.replicate zeros (0 : UInt8)) ++
    bytesOf (bits >>> 32).toUInt32 ++ bytesOf bits.toUInt32

/-- The next word of a stretched block. -/
def nextWord (words : Array UInt32) : UInt32 :=
  let back := fun distance => words.getD (words.size - distance) 0
  let low := back 15
  let high := back 2
  let sigma0 := turn low 7 ^^^ turn low 18 ^^^ (low >>> 3)
  let sigma1 := turn high 17 ^^^ turn high 19 ^^^ (high >>> 10)
  back 16 + sigma0 + back 7 + sigma1

/-- The sixty-four words of a block. -/
def stretched (block : List UInt8) : Array UInt32 :=
  let first := (List.range 16).map fun index =>
    wordOf ((block.drop (4 * index)).take 4)
  (List.range 48).foldl (fun words _ => words.push (nextWord words))
    first.toArray

/-- One round. -/
def mix (words : Array UInt32) (state : State) (round : Nat) : State :=
  let { a, b, c, d, e, f, g, h } := state
  let sum1 := turn e 6 ^^^ turn e 11 ^^^ turn e 25
  let choice := (e &&& f) ^^^ (~~~e &&& g)
  let first :=
    h + sum1 + choice + roundWords.getD round 0 + words.getD round 0
  let sum0 := turn a 2 ^^^ turn a 13 ^^^ turn a 22
  let majority := (a &&& b) ^^^ (a &&& c) ^^^ (b &&& c)
  { a := first + sum0 + majority
    b := a
    c := b
    d := c
    e := d + first
    f := e
    g := f
    h := g }

/-- The state after one more block. -/
def absorb (state : State) (block : List UInt8) : State :=
  let mixed := (List.range 64).foldl (mix (stretched block)) state
  { a := state.a + mixed.a
    b := state.b + mixed.b
    c := state.c + mixed.c
    d := state.d + mixed.d
    e := state.e + mixed.e
    f := state.f + mixed.f
    g := state.g + mixed.g
    h := state.h + mixed.h }

/-- The thirty-two bytes of the digest. -/
def digest (message : List UInt8) : List UInt8 :=
  let bytes := padded message
  let state := (List.range (bytes.length / 64)).foldl
    (fun state index => absorb state ((bytes.drop (64 * index)).take 64)) initial
  [state.a, state.b, state.c, state.d, state.e, state.f, state.g,
    state.h].flatMap bytesOf

end PackageLayers.Sha256
