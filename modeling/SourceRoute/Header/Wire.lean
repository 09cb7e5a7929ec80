import SourceRoute.Bits.Access
import SourceRoute.Field.Hop
import SourceRoute.Field.Info
import SourceRoute.Header.Validity

/-!
# The wire form of a path

A path is a header of four bytes, the info fields of its segments, and the hop fields of all
segments.  The header has two bits for the current segment, six for the current hop, six reserved
ones, and six for each segment length.  The lengths alone decide where every record lies.
-/

namespace SourceRoute

namespace Header

/-- The length of the wire form. -/
def size : Nat := 4

/-! ## Positions of the parts -/

namespace Bits

/-- The current segment. -/
def currentInfo : BitRange := .ofWidth 0 2

/-- The current hop. -/
def currentHop : BitRange := .ofWidth 2 6

/-- The reserved bits. -/
def reserved : BitRange := .ofWidth 8 6

/-- The length of the first segment. -/
def first : BitRange := .ofWidth 14 6

/-- The length of the second segment. -/
def second : BitRange := .ofWidth 20 6

/-- The length of the third segment. -/
def third : BitRange := .ofWidth 26 6

end Bits

/-! ## Reading and writing -/

/-- The header in the first four bytes of a buffer.  Missing bytes count as zero. -/
def read (b : Bytes) : Header where
  currentInfo := ⟨Bits.currentInfo.get 8 b⟩
  currentHop := ⟨Bits.currentHop.get 8 b⟩
  lengths := ⟨⟨Bits.first.get 8 b⟩, ⟨Bits.second.get 8 b⟩, ⟨Bits.third.get 8 b⟩⟩

/-- The buffer with the header over its first four bytes, the reserved bits zero.  Values lose the
bits that do not fit, and missing bytes are skipped. -/
def write (h : Header) (b : Bytes) : Bytes :=
  let b := Bits.currentInfo.set h.currentInfo.toBitVec b
  let b := Bits.currentHop.set h.currentHop.toBitVec b
  let b := Bits.reserved.set 0#8 b
  let b := Bits.first.set h.lengths.first.toBitVec b
  let b := Bits.second.set h.lengths.second.toBitVec b
  Bits.third.set h.lengths.third.toBitVec b

@[simp] theorem length_write (h : Header) (b : Bytes) : (h.write b).length = b.length := by
  simp [write]

end Header

namespace SegmentLengths

/-! ## Positions of the records -/

/-- The number of bytes of the info fields. -/
def infoBytes (l : SegmentLengths) : Nat := l.infoCount * InfoField.size

/-- The number of bytes of all records. -/
def recordBytes (l : SegmentLengths) : Nat := l.infoBytes + l.hopCount * HopField.size

/-- The number of bytes of the whole path. -/
def pathBytes (l : SegmentLengths) : Nat := Header.size + l.recordBytes

/-- Where an info field lies behind the header. -/
def infoSpan (_ : SegmentLengths) (index : Nat) : Span :=
  Span.ofSize (index * InfoField.size) InfoField.size

/-- Where a hop field lies behind the header. -/
def hopSpan (l : SegmentLengths) (index : Nat) : Span :=
  Span.ofSize (l.infoBytes + index * HopField.size) HopField.size

end SegmentLengths

namespace Header

/-- The header of the path at the front of a buffer.  The header has to be there and to be valid,
and the buffer has to hold every record that the lengths call for; more bytes may follow. -/
def parse (b : Bytes) : Except Malformed Header :=
  if b.length < size then .error (.tooShort .header size b.length)
  else
    let h := read (b.take size)
    match h.fault? with
    | some fault => .error fault
    | none =>
      if b.length < h.lengths.pathBytes then
        .error (.tooShort .records h.lengths.pathBytes b.length)
      else .ok h

end Header

end SourceRoute
