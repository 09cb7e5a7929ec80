import SourceRoute.Bits.Range
import SourceRoute.Bytes

/-!
# Reading and writing bit ranges

The bytes that a range touches, at most eight, are gathered into one 64-bit lane, most significant
byte first.  A read shifts the range down to the low end of the lane; a write replaces the bits of
the range in the lane and puts the bytes of the lane back.  Bytes past the end of the buffer count
as zero in a read and are skipped by a write, so a write never changes the length.
-/

namespace SourceRoute.BitRange

/-- The bytes that hold the range, most significant byte first. -/
def lane (r : BitRange) (b : Bytes) : BitVec 64 :=
  Bytes.toWord 64 (r.bytes.toList.map fun i => b.getD i 0)

/-- The value of the range, its last bit being the lowest. -/
def read (r : BitRange) (b : Bytes) : BitVec 64 := (r.lane b >>> r.slack) &&& r.mask

/-- The lane with the bits of the range replaced by the low bits of `value`. -/
def patch (r : BitRange) (value : BitVec 64) (lane : BitVec 64) : BitVec 64 :=
  (lane &&& ~~~(r.mask <<< r.slack)) ||| ((value &&& r.mask) <<< r.slack)

/-- Writes the low bits of `value` into the range.  Bits outside the range stay as they are, and
a value that is too wide loses its high bits. -/
def write (r : BitRange) (value : BitVec 64) (b : Bytes) : Bytes :=
  let patched := r.patch value (r.lane b)
  b.mapIdx fun i byte =>
    -- the last byte of the range is the lowest byte of the lane
    if i ∈ r.bytes then ⟨(patched >>> (8 * (r.bytes.stop - 1 - i))).setWidth 8⟩ else byte

/-- The low `w` bits of the value of the range. -/
def get (r : BitRange) (w : Nat) (b : Bytes) : BitVec w := (r.read b).setWidth w

/-- Writes a word of any width into the range. -/
def set {w : Nat} (r : BitRange) (x : BitVec w) (b : Bytes) : Bytes := r.write (x.setWidth 64) b

@[simp] theorem length_write (r : BitRange) (value : BitVec 64) (b : Bytes) :
    (r.write value b).length = b.length := by
  simp [write]

@[simp] theorem length_set {w : Nat} (r : BitRange) (x : BitVec w) (b : Bytes) :
    (r.set x b).length = b.length := length_write r _ b

end SourceRoute.BitRange
