import SourceRoute.Fault.Processing
import SourceRoute.Runs

/-!
# Path headers

A header holds the lengths of up to three segments and the current position, as the index of a
segment and the index of a hop counted over the whole path.  Nothing here assumes that the header
is valid: positions and lengths may be any bytes.
-/

namespace SourceRoute

/-- The number of segments that a header describes. -/
def maxSegments : Nat := 3

/-- The largest number of hops of one segment. -/
def maxSegmentLength : Nat := 63

/-- The largest number of hops of a path. -/
def maxHops : Nat := 64

/-! ## Segment lengths -/

/-- The numbers of hops of the three segments, zero for a segment that is not there. -/
structure SegmentLengths where
  first : UInt8
  second : UInt8
  third : UInt8
deriving DecidableEq

namespace SegmentLengths

/-- The lengths in segment order. -/
def toList (l : SegmentLengths) : List Nat := [l.first.toNat, l.second.toNat, l.third.toNat]

/-- The number of hops of the path. -/
def hopCount (l : SegmentLengths) : Nat := Runs.total l.toList

/-- The number of segments that have hops, each of which has an info field. -/
def infoCount (l : SegmentLengths) : Nat := (l.toList.filter (0 < ·)).length

/-- The positions of the hops of a segment. -/
def segmentSpan (l : SegmentLengths) (segment : Nat) : Span := Runs.span l.toList segment

/-- The segment that owns a hop. -/
def segmentOf? (l : SegmentLengths) (hop : Nat) : Option Nat :=
  (Runs.locate l.toList hop).map Prod.fst

/-- The lengths of the segments in the opposite order.  Segments that are not there stay behind the
others. -/
def reversed (l : SegmentLengths) : SegmentLengths :=
  match l.infoCount with
  | 3 => ⟨l.third, l.second, l.first⟩
  | 2 => ⟨l.second, l.first, l.third⟩
  -- a single segment comes first either way
  | _ => l

end SegmentLengths

/-! ## Headers -/

/-- The segment lengths of a path and the current position on it. -/
structure Header where
  /-- The index of the current segment. -/
  currentInfo : UInt8
  /-- The index of the current hop on the whole path. -/
  currentHop : UInt8
  lengths : SegmentLengths
deriving DecidableEq

namespace Header

/-- The number of hops of the path. -/
def hopCount (h : Header) : Nat := h.lengths.hopCount

/-- The number of segments that have hops. -/
def infoCount (h : Header) : Nat := h.lengths.infoCount

/-- The segment that owns the current hop. -/
def currentSegment? (h : Header) : Option Nat := h.lengths.segmentOf? h.currentHop.toNat

/-- Whether the current hop is the last one of its segment. -/
def isLastOfSegment (h : Header) : Bool :=
  match h.currentSegment? with
  | some segment => h.currentHop.toNat + 1 = (h.lengths.segmentSpan segment).stop
  | none => false

/-- Whether the current hop is the first one of its segment. -/
def isFirstOfSegment (h : Header) : Bool :=
  match h.currentSegment? with
  | some segment => h.currentHop.toNat = (h.lengths.segmentSpan segment).start
  | none => false

/-- Whether no hop follows the current one. -/
def isLast (h : Header) : Bool := h.hopCount ≤ h.currentHop.toNat + 1

/-- The header at the next hop, with the segment that owns it.  The header is not checked, and the
new position is kept in eight bits. -/
def advance (h : Header) : Except PathFault Header :=
  match h.lengths.segmentOf? (h.currentHop.toNat + 1) with
  | none => .error (.exhausted h.hopCount)
  | some segment =>
    .ok { h with
      currentInfo := UInt8.ofNat segment
      currentHop := UInt8.ofNat (h.currentHop.toNat + 1) }

/-- The header at the first hop. -/
def atStart (h : Header) : Header := { h with currentInfo := 0, currentHop := 0 }

/-- The header of the path the other way round, at its first hop. -/
def reversed (h : Header) : Header :=
  { currentInfo := 0, currentHop := 0, lengths := h.lengths.reversed }

end Header

end SourceRoute
