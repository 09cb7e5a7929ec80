import SourceRoute.Bytes

/-!
# AES with a 128-bit key

The block cipher with 128-bit keys, encryption only.  A block is sixteen bytes, stored column after
column.  The substitution table is computed from its definition: the inverse in the field of 256
elements, followed by an affine map on bits.
-/

namespace SourceRoute.Crypto.Aes

/-- Sixteen bytes, in column order. -/
abbrev Block := Vector UInt8 16

/-! ## The field of 256 elements -/

/-- The product with `x` in the field of 256 elements. -/
def xtime (a : UInt8) : UInt8 := if a &&& 0x80 = 0 then a <<< 1 else (a <<< 1) ^^^ 0x1b

/-- The product of two elements, by adding `a` times the lowest `n` powers that `b` holds. -/
def mulBits : Nat → UInt8 → UInt8 → UInt8
  | 0, _, _ => 0
  | n + 1, a, b => (if b &&& 1 = 0 then 0 else a) ^^^ mulBits n (xtime a) (b >>> 1)

/-- The product of two elements. -/
def mul (a b : UInt8) : UInt8 := mulBits 8 a b

/-- The inverse of an element, zero for zero: the power 254, since 255 elements are invertible. -/
def inv (a : UInt8) : UInt8 :=
  let a2 := mul a a
  let a4 := mul a2 a2
  let a8 := mul a4 a4
  let a16 := mul a8 a8
  let a32 := mul a16 a16
  let a64 := mul a32 a32
  let a128 := mul a64 a64
  -- 254 is the sum of the powers of two from 2 to 128
  mul a2 (mul a4 (mul a8 (mul a16 (mul a32 (mul a64 a128)))))

/-- The byte turned left by `n` bits, for `n` from 1 to 7. -/
def rotate (a : UInt8) (n : UInt8) : UInt8 := (a <<< n) ||| (a >>> (8 - n))

/-- The substitution table. -/
def sbox : Vector UInt8 256 := Vector.ofFn fun i =>
  let b := inv (UInt8.ofNat i)
  b ^^^ rotate b 1 ^^^ rotate b 2 ^^^ rotate b 3 ^^^ rotate b 4 ^^^ 0x63

/-- The table entry of a byte. -/
def substitute (a : UInt8) : UInt8 := sbox.get ⟨a.toNat, a.toNat_lt⟩

/-! ## Rounds -/

/-- The bytewise sum of two blocks. -/
def xor (a b : Block) : Block := Vector.zipWith (· ^^^ ·) a b

/-- Row `r` of the block turned left by `r` places. -/
def shiftRows (s : Block) : Block := Vector.ofFn fun i =>
  -- column `i / 4`, row `i % 4`
  s[(4 * (i.val / 4 + i.val % 4) + i.val % 4) % 16]

/-- Each column multiplied by the fixed matrix whose rows are the turns of 2, 3, 1, 1. -/
def mixColumns (s : Block) : Block := Vector.ofFn fun i =>
  let below (k : Nat) : UInt8 := s[(4 * (i.val / 4) + (i.val + k) % 4) % 16]
  xtime (below 0) ^^^ (xtime (below 1) ^^^ below 1) ^^^ below 2 ^^^ below 3

/-- The next round key.  Its first column is the old one plus the substituted and turned last
column and the round constant, and each further column adds the old one. -/
def nextKey (k : Block) (constant : UInt8) : Block := Vector.ofFn fun i =>
  let row := i.val % 4
  let turned := substitute k[(12 + (row + 1) % 4) % 16] ^^^ (if row = 0 then constant else 0)
  (List.range (i.val / 4 + 1)).foldl (fun acc column => acc ^^^ k[(4 * column + row) % 16]) turned

/-- The round constants, the first ten powers of `x`. -/
def constants : List UInt8 := [0x01, 0x02, 0x04, 0x08, 0x10, 0x20, 0x40, 0x80, 0x1b, 0x36]

/-- The rounds that the given constants still call for.  The last one leaves the columns unmixed. -/
def rounds : List UInt8 → Block → Block → Block
  | [], _, s => s
  | [c], k, s => xor (shiftRows (s.map substitute)) (nextKey k c)
  | c :: cs, k, s =>
    let key := nextKey k c
    rounds cs key (xor (mixColumns (shiftRows (s.map substitute))) key)

/-- The encryption of a block under a key. -/
def encrypt (key block : Block) : Block := rounds constants key (xor block key)

end SourceRoute.Crypto.Aes
