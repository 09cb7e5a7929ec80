import SourceRoute.Bits.Access
import SourceRoute.Field.Flags
import SourceRoute.Wire

/-!
# Info fields

Each segment has one info field of eight bytes.  Its second byte is reserved: it is written as
zero and not looked at.
-/

namespace SourceRoute

/-- What holds for all hops of a segment. -/
structure InfoField where
  flags : InfoFlags
  /-- The identifier that starts the chain of authentication codes. -/
  segmentId : UInt16
  /-- When the segment was made, in seconds since the epoch. -/
  timestamp : UInt32
deriving DecidableEq

namespace InfoField

/-- The length of the wire form. -/
def size : Nat := 8

/-! ## Positions of the parts -/

namespace Bits

/-- The flag byte. -/
def flags : BitRange := .ofWidth 0 8

/-- The reserved byte. -/
def reserved : BitRange := .ofWidth 8 8

/-- The segment identifier. -/
def segmentId : BitRange := .ofWidth 16 16

/-- The timestamp. -/
def timestamp : BitRange := .ofWidth 32 32

end Bits

/-! ## Reading and writing -/

/-- The info field in the first eight bytes of a buffer. -/
def read (b : Bytes) : InfoField where
  flags := ⟨⟨Bits.flags.get 8 b⟩⟩
  segmentId := ⟨Bits.segmentId.get 16 b⟩
  timestamp := ⟨Bits.timestamp.get 32 b⟩

/-- The buffer with the info field over its first eight bytes. -/
def write (f : InfoField) (b : Bytes) : Bytes :=
  let b := Bits.flags.set f.flags.bits.toBitVec b
  let b := Bits.reserved.set 0#8 b
  let b := Bits.segmentId.set f.segmentId.toBitVec b
  Bits.timestamp.set f.timestamp.toBitVec b

/-- Every info field has a wire form. -/
instance : Wire InfoField where
  size _ := size
  fault? _ := none
  write := write

@[simp] theorem length_write (f : InfoField) (b : Bytes) : (f.write b).length = b.length := by
  simp [write]

/-- The info field of the same segment visited the other way. -/
def reversed (f : InfoField) : InfoField := { f with flags := f.flags.flipConsDir }

end InfoField

end SourceRoute
