import SourceRoute.Header.Wire
import SourceRoute.Path.Basic
import SourceRoute.View.Record

/-!
# Paths in place

A path that is looked at in place is its bytes.  `ofBytes` accepts the front of a buffer only if it
holds a valid header and all records.  Every reading finds its record anew from the segment lengths
in the header.  The position can be set without a check, in which case the header may become
invalid, but the lengths and so the records stay where they are.
-/

namespace SourceRoute

/-- The bytes of a path. -/
structure PathView where
  bytes : Bytes
deriving DecidableEq

namespace PathView

/-- The path at the front of a buffer, and the bytes behind it. -/
def ofBytes (b : Bytes) : Except Malformed (PathView × Bytes) :=
  match Header.parse b with
  | .error fault => .error fault
  | .ok h => .ok (⟨b.take h.lengths.pathBytes⟩, b.drop h.lengths.pathBytes)

/-! ## Reading -/

/-- The header. -/
def header (v : PathView) : Header := Header.read v.bytes

/-- The segment lengths. -/
def lengths (v : PathView) : SegmentLengths := v.header.lengths

/-- The number of info fields. -/
def infoCount (v : PathView) : Nat := v.lengths.infoCount

/-- The number of hop fields. -/
def hopCount (v : PathView) : Nat := v.lengths.hopCount

/-- Where an info field lies. -/
def infoSpan? (v : PathView) (index : Nat) : Option Span :=
  if index < v.infoCount then some ((v.lengths.infoSpan index).shift Header.size) else none

/-- Where a hop field lies. -/
def hopSpan? (v : PathView) (index : Nat) : Option Span :=
  if index < v.hopCount then some ((v.lengths.hopSpan index).shift Header.size) else none

/-- The info field at an index. -/
def info? (v : PathView) (index : Nat) : Option InfoView :=
  (v.infoSpan? index).bind fun span => (v.bytes.slice? span).map InfoView.mk

/-- The hop field at an index. -/
def hop? (v : PathView) (index : Nat) : Option HopView :=
  (v.hopSpan? index).bind fun span => (v.bytes.slice? span).map HopView.mk

/-- The info field that the position names. -/
def currentInfo? (v : PathView) : Option InfoView := v.info? v.header.currentInfo.toNat

/-- The hop field that the position names. -/
def currentHop? (v : PathView) : Option HopView := v.hop? v.header.currentHop.toNat

/-- All info fields. -/
def infos (v : PathView) : List InfoView := (List.range v.infoCount).filterMap v.info?

/-- All hop fields. -/
def hops (v : PathView) : List HopView := (List.range v.hopCount).filterMap v.hop?

/-- The bytes as a source of records. -/
def records (v : PathView) : RecordSource where
  header := v.header.validate
  lengths? := v.lengths.checked?
  info? index := (v.info? index).map InfoView.field
  hop? index := (v.hop? index).map HopView.field

/-! ## From bytes to owned paths -/

/-- One segment: its info field and the hop fields in its span. -/
def segment? (v : PathView) (index : Nat) : Option Segment :=
  (v.info? index).map fun info =>
    { info := info.field
      hops := (v.lengths.segmentSpan index).toList.filterMap fun i =>
        (v.hop? i).map HopView.field }

/-- The path that the bytes hold. -/
def toPath (v : PathView) : Path where
  currentInfo := v.header.currentInfo
  currentHop := v.header.currentHop
  segments := (List.range v.infoCount).filterMap v.segment?

end PathView

/-- The path at the front of a buffer, and the bytes behind it.  Authentication codes are not
looked at. -/
def Path.decode (b : Bytes) : Except Malformed (Path × Bytes) :=
  match PathView.ofBytes b with
  | .error fault => .error fault
  | .ok (view, rest) => .ok (view.toPath, rest)

end SourceRoute
