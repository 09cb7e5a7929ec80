import SourceRoute.Field.Hop
import SourceRoute.Field.Info
import SourceRoute.Header.Validity

/-!
# What is read of a path

A path is held either as a value or as bytes.  Locating the current hop and listing the links need
the same few readings of both: the header, the segment lengths, and the records by index.  A
`RecordSource` is these readings, so that each rule on top of them is stated once.
-/

namespace SourceRoute

/-- The readings of a path that do not depend on how it is held. -/
structure RecordSource where
  /-- The header, if it is valid. -/
  header : Except Malformed Header
  /-- The segment lengths, if they are valid.  The position does not matter here. -/
  lengths? : Option SegmentLengths
  /-- The info field of a segment. -/
  info? : Nat → Option InfoField
  /-- The hop field at an index on the whole path. -/
  hop? : Nat → Option HopField

namespace SegmentLengths

/-- The lengths themselves if nothing is wrong with them. -/
def checked? (l : SegmentLengths) : Option SegmentLengths :=
  if l.fault? = none then some l else none

end SegmentLengths

end SourceRoute
