import SourceRoute.Span

/-!
# Bit ranges

Every field of a record lives in a range of bits, numbered from the most significant bit of the
first byte.  Readers and writers share these ranges, so a field position is written down once.
-/

namespace SourceRoute

/-- The bits from `start` up to, but not including, `stop`. -/
structure BitRange where
  start : Nat
  stop : Nat
  /-- A range does not end before it begins. -/
  start_le_stop : start ≤ stop
deriving DecidableEq

namespace BitRange

/-- The range of `width` bits that begins at bit `start`. -/
def ofWidth (start width : Nat) : BitRange := ⟨start, start + width, Nat.le_add_right start width⟩

/-- The number of bits in the range. -/
def width (r : BitRange) : Nat := r.stop - r.start

/-- Whether a bit lies in the range. -/
def contains (r : BitRange) (bit : Nat) : Bool := r.start ≤ bit && bit < r.stop

/-- The same range, the given number of bytes further on. -/
def shift (r : BitRange) (bytes : Nat) : BitRange :=
  ⟨r.start + bytes * 8, r.stop + bytes * 8, Nat.add_le_add_right r.start_le_stop (bytes * 8)⟩

/-- The bits of a span of bytes. -/
def ofBytes (s : Span) : BitRange := ofWidth (s.start * 8) (s.size * 8)

/-- The smallest span of bytes that holds the range. -/
def bytes (r : BitRange) : Span := ⟨r.start / 8, (r.stop + 7) / 8⟩

/-- The number of bytes that the range touches. -/
def byteCount (r : BitRange) : Nat := r.bytes.size

/-- The bytes of the range, if it begins and ends between bytes. -/
def alignedBytes? (r : BitRange) : Option Span :=
  if r.start % 8 = 0 ∧ r.stop % 8 = 0 then some ⟨r.start / 8, r.stop / 8⟩ else none

/-- The ones that a value of the range may use, as a 64-bit mask.  It is also the largest value
that the range holds; a range of 64 bits or more holds every 64-bit value. -/
def mask (r : BitRange) : BitVec 64 :=
  if 64 ≤ r.width then BitVec.allOnes 64 else (1#64 <<< r.width) - 1#64

/-- The number of bits between the end of the range and the end of its last byte. -/
def slack (r : BitRange) : Nat := r.bytes.stop * 8 - r.stop

@[simp] theorem width_ofWidth (start width : Nat) : (ofWidth start width).width = width := by
  simp [ofWidth, BitRange.width]

@[simp] theorem width_shift (r : BitRange) (n : Nat) : (r.shift n).width = r.width := by
  simp only [shift, width]
  omega

end BitRange

end SourceRoute
