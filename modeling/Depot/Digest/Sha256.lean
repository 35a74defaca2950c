/-!
# SHA-256

The hash function of the secure hash standard, on lists of bytes. A message is
padded with a one bit, zeros and its length in bits as a 64-bit big-endian
number, to a multiple of 64 bytes; each block of 64 bytes is expanded into 64
words of schedule and folded into the eight words of state by 64 rounds; the
digest is the final state, big-endian.

`Depot.Sha256.Hasher` takes the message in pieces: it keeps the state, the
bytes of an unfinished block and the count of bytes seen, so that feeding the
pieces of a message one after another gives the digest of the whole.
-/

namespace Depot.Sha256

/-- The round constants: the first 32 bits of the fractional parts of the cube
roots of the first 64 primes. -/
def roundConstants : List UInt32 := [
  0x428a2f98, 0x71374491, 0xb5c0fbcf, 0xe9b5dba5, 0x3956c25b, 0x59f111f1, 0x923f82a4, 0xab1c5ed5,
  0xd807aa98, 0x12835b01, 0x243185be, 0x550c7dc3, 0x72be5d74, 0x80deb1fe, 0x9bdc06a7, 0xc19bf174,
  0xe49b69c1, 0xefbe4786, 0x0fc19dc6, 0x240ca1cc, 0x2de92c6f, 0x4a7484aa, 0x5cb0a9dc, 0x76f988da,
  0x983e5152, 0xa831c66d, 0xb00327c8, 0xbf597fc7, 0xc6e00bf3, 0xd5a79147, 0x06ca6351, 0x14292967,
  0x27b70a85, 0x2e1b2138, 0x4d2c6dfc, 0x53380d13, 0x650a7354, 0x766a0abb, 0x81c2c92e, 0x92722c85,
  0xa2bfe8a1, 0xa81a664b, 0xc24b8b70, 0xc76c51a3, 0xd192e819, 0xd6990624, 0xf40e3585, 0x106aa070,
  0x19a4c116, 0x1e376c08, 0x2748774c, 0x34b0bcb5, 0x391c0cb3, 0x4ed8aa4a, 0x5b9cca4f, 0x682e6ff3,
  0x748f82ee, 0x78a5636f, 0x84c87814, 0x8cc70208, 0x90befffa, 0xa4506ceb, 0xbef9a3f7, 0xc67178f2]

/-- **The state**: eight words. -/
structure State where
  a : UInt32
  b : UInt32
  c : UInt32
  d : UInt32
  e : UInt32
  f : UInt32
  g : UInt32
  h : UInt32
  deriving DecidableEq, Repr

/-- The initial state: the first 32 bits of the fractional parts of the square
roots of the first eight primes. -/
def initial : State :=
  ⟨0x6a09e667, 0xbb67ae85, 0x3c6ef372, 0xa54ff53a, 0x510e527f, 0x9b05688c, 0x1f83d9ab, 0x5be0cd19⟩

/-- Rotates a word right. -/
def rotr (x : UInt32) (n : UInt32) : UInt32 := (x >>> n) ||| (x <<< (32 - n))

/-- One round: the state after mixing in a round constant and a word of the
schedule. -/
def round (s : State) (k w : UInt32) : State :=
  let s1 := rotr s.e 6 ^^^ rotr s.e 11 ^^^ rotr s.e 25
  let ch := (s.e &&& s.f) ^^^ (~~~s.e &&& s.g)
  let t1 := s.h + s1 + ch + k + w
  let s0 := rotr s.a 2 ^^^ rotr s.a 13 ^^^ rotr s.a 22
  let maj := (s.a &&& s.b) ^^^ (s.a &&& s.c) ^^^ (s.b &&& s.c)
  ⟨t1 + s0 + maj, s.a, s.b, s.c, s.d + t1, s.e, s.f, s.g⟩

/-- The word of four bytes, big-endian. -/
def word (b0 b1 b2 b3 : UInt8) : UInt32 :=
  (b0.toUInt32 <<< 24) ||| (b1.toUInt32 <<< 16) ||| (b2.toUInt32 <<< 8) ||| b3.toUInt32

/-- The words of a block, four bytes each. -/
def words : List UInt8 → List UInt32
  | b0 :: b1 :: b2 :: b3 :: rest => word b0 b1 b2 b3 :: words rest
  | _ => []

/-- Extends the schedule, whose last sixteen words are given newest first, by
`n` words. -/
def extend : Nat → List UInt32 → List UInt32
  | 0, ws => ws
  | n + 1, ws =>
    let w := fun i => ws.getD i 0
    let x15 := w 14
    let x2 := w 1
    let s0 := rotr x15 7 ^^^ rotr x15 18 ^^^ (x15 >>> 3)
    let s1 := rotr x2 17 ^^^ rotr x2 19 ^^^ (x2 >>> 10)
    extend n ((w 15 + s0 + w 6 + s1) :: ws)

/-- The 64 words of schedule of a block of 64 bytes. -/
def schedule (block : List UInt8) : List UInt32 :=
  (extend 48 (words block).reverse).reverse

/-- Folds a block of 64 bytes into the state. -/
def compress (s : State) (block : List UInt8) : State :=
  let t := (roundConstants.zip (schedule block)).foldl (fun t (k, w) => round t k w) s
  ⟨s.a + t.a, s.b + t.b, s.c + t.c, s.d + t.d, s.e + t.e, s.f + t.f, s.g + t.g, s.h + t.h⟩

/-- The bytes of a word, big-endian. -/
def wordBytes (x : UInt32) : List UInt8 :=
  [(x >>> 24).toUInt8, (x >>> 16).toUInt8, (x >>> 8).toUInt8, x.toUInt8]

/-- The digest of a final state. -/
def State.bytes (s : State) : List UInt8 :=
  [s.a, s.b, s.c, s.d, s.e, s.f, s.g, s.h].flatMap wordBytes

/-- **A hasher**: the state after the whole blocks seen, the bytes of the
block begun, and the number of bytes seen. -/
structure Hasher where
  state : State
  pending : List UInt8
  count : Nat

namespace Hasher

/-- A hasher that has seen nothing. -/
def new : Hasher := ⟨initial, [], 0⟩

/-- Folds the whole blocks at the front of a byte list into the state; the
fuel bounds the number of blocks. -/
def absorb : Nat → State → List UInt8 → State × List UInt8
  | 0, s, bs => (s, bs)
  | n + 1, s, bs =>
    if 64 ≤ bs.length then absorb n (compress s (bs.take 64)) (bs.drop 64) else (s, bs)

/-- **Feeds bytes** to the hasher. -/
def update (h : Hasher) (bs : List UInt8) : Hasher :=
  let all := h.pending ++ bs
  let (s, rest) := absorb (all.length / 64) h.state all
  ⟨s, rest, h.count + bs.length⟩

/-- The padding after a message of `count` bytes whose unfinished block has
`pending` bytes: a one bit, zeros to 56 bytes past a block boundary, and the
length in bits. -/
def padding (pending count : Nat) : List UInt8 :=
  let zeros := (119 - pending) % 64
  let bits := 8 * count
  (0x80 : UInt8) :: List.replicate zeros 0 ++ (List.range 8).reverse.map fun i => (bits >>> (8 * i)).toUInt8

/-- **The digest** of everything fed to the hasher. -/
def finish (h : Hasher) : List UInt8 :=
  let tail := h.pending ++ padding h.pending.length h.count
  (absorb (tail.length / 64) h.state tail).1.bytes

end Hasher

/-- **The SHA-256 digest** of a byte list. -/
def hash (bs : List UInt8) : List UInt8 := (Hasher.new.update bs).finish

end Depot.Sha256
