import SourceRoute.Bytes

/-!
# SHA-256

The hash function with 32 bytes of output.  The message is padded to a whole number of 64-byte
blocks, and each block is worked into eight words of state by 64 rounds.  The schedule of a block is
a sliding window of sixteen words: each round uses the oldest word and appends the next one.
-/

namespace SourceRoute.Crypto.Sha256

/-- The eight words of state. -/
abbrev State := Vector UInt32 8

/-- Sixteen consecutive words of the schedule. -/
abbrev Window := Vector UInt32 16

/-- The word turned right by `n` bits, for `n` from 1 to 31. -/
def rotr (x n : UInt32) : UInt32 := (x >>> n) ||| (x <<< (32 - n))

/-- The first 32 bits of the fractional parts of the cube roots of the first 64 primes. -/
def constants : List UInt32 :=
  [0x428a2f98, 0x71374491, 0xb5c0fbcf, 0xe9b5dba5, 0x3956c25b, 0x59f111f1, 0x923f82a4, 0xab1c5ed5,
   0xd807aa98, 0x12835b01, 0x243185be, 0x550c7dc3, 0x72be5d74, 0x80deb1fe, 0x9bdc06a7, 0xc19bf174,
   0xe49b69c1, 0xefbe4786, 0x0fc19dc6, 0x240ca1cc, 0x2de92c6f, 0x4a7484aa, 0x5cb0a9dc, 0x76f988da,
   0x983e5152, 0xa831c66d, 0xb00327c8, 0xbf597fc7, 0xc6e00bf3, 0xd5a79147, 0x06ca6351, 0x14292967,
   0x27b70a85, 0x2e1b2138, 0x4d2c6dfc, 0x53380d13, 0x650a7354, 0x766a0abb, 0x81c2c92e, 0x92722c85,
   0xa2bfe8a1, 0xa81a664b, 0xc24b8b70, 0xc76c51a3, 0xd192e819, 0xd6990624, 0xf40e3585, 0x106aa070,
   0x19a4c116, 0x1e376c08, 0x2748774c, 0x34b0bcb5, 0x391c0cb3, 0x4ed8aa4a, 0x5b9cca4f, 0x682e6ff3,
   0x748f82ee, 0x78a5636f, 0x84c87814, 0x8cc70208, 0x90befffa, 0xa4506ceb, 0xbef9a3f7, 0xc67178f2]

/-- The first 32 bits of the fractional parts of the square roots of the first eight primes. -/
def initial : State :=
  (#v[0x6a09e667, 0xbb67ae85, 0x3c6ef372, 0xa54ff53a, 0x510e527f, 0x9b05688c, 0x1f83d9ab,
    0x5be0cd19] : State)

/-- The word of the schedule that follows a window. -/
def nextWord (w : Window) : UInt32 :=
  let low := rotr w[1] 7 ^^^ rotr w[1] 18 ^^^ (w[1] >>> 3)
  let high := rotr w[14] 17 ^^^ rotr w[14] 19 ^^^ (w[14] >>> 10)
  high + w[9] + low + w[0]

/-- The window one word further on. -/
def slide (w : Window) : Window :=
  let next := nextWord w
  Vector.ofFn fun i => if h : i.val + 1 < 16 then w[i.val + 1] else next

/-- One round, with its constant and its word of the schedule. -/
def round (s : State) (constant word : UInt32) : State :=
  let choice := (s[4] &&& s[5]) ^^^ (~~~s[4] &&& s[6])
  let majority := (s[0] &&& s[1]) ^^^ (s[0] &&& s[2]) ^^^ (s[1] &&& s[2])
  let t1 := s[7] + (rotr s[4] 6 ^^^ rotr s[4] 11 ^^^ rotr s[4] 25) + choice + constant + word
  let t2 := (rotr s[0] 2 ^^^ rotr s[0] 13 ^^^ rotr s[0] 22) + majority
  (#v[t1 + t2, s[0], s[1], s[2], s[3] + t1, s[4], s[5], s[6]] : State)

/-- The rounds of the given constants. -/
def rounds : List UInt32 → Window → State → State
  | [], _, s => s
  | c :: cs, w, s => rounds cs (slide w) (round s c w[0])

/-- The first window of a block: its sixteen words, most significant byte first. -/
def windowOf (block : Bytes) : Window := Vector.ofFn fun i =>
  UInt32.ofBitVec (Bytes.toWord 32 ((block.drop (4 * i.val)).take 4))

/-- The state after one block. -/
def compress (s : State) (block : Bytes) : State :=
  Vector.zipWith (· + ·) s (rounds constants (windowOf block) s)

/-- The message with a one bit, zeros up to the last eight bytes of a block, and its bit length. -/
def pad (message : Bytes) : Bytes :=
  -- behind the byte of the one bit, the zeros end eight bytes before the end of a block
  message ++ [0x80] ++ List.replicate ((119 - message.length % 64) % 64) 0
    ++ Bytes.ofWord 8 (BitVec.ofNat 64 (8 * message.length))

/-- The state after all whole blocks of a string. -/
def absorb (s : State) (b : Bytes) : State :=
  if b.length < 64 then s else absorb (compress s (b.take 64)) (b.drop 64)
termination_by b.length
decreasing_by simp only [List.length_drop]; omega

/-- The 32-byte hash of a message. -/
def hash (message : Bytes) : Bytes :=
  (absorb initial (pad message)).toList.flatMap fun word => Bytes.ofWord 4 word.toBitVec

end SourceRoute.Crypto.Sha256
