import SourceRoute.Header.Wire
import SourceRoute.Path.Basic

/-!
# Encoding owned paths

A path has a wire form if a decoder accepts that form again.  The header is written first, then the
info fields, then the hop fields, each record over its own bytes.
-/

namespace SourceRoute

/-- Why a segment has no wire form, if it has none. -/
def Segment.structureFault? (s : Segment) : Option StructureFault :=
  if maxSegmentLength < s.size then some .segmentTooLong
  else if s.hops = [] then some .emptySegment
  else none

/-- What a header fault means for a path whose segments all have a wire form. -/
def StructureFault.ofMalformed : Malformed → StructureFault
  | .hopOutOfRange _ _ => .hopOutOfRange
  | .infoMismatch _ _ => .infoMismatch
  | _ => .inconsistentLengths

namespace Path

/-- Why the path has no wire form, if it has none.  The segments are looked at in order, then the
number of hops, then the position. -/
def structureFault? (p : Path) : Option StructureFault :=
  if p.segments = [] then some .noSegments
  else if maxSegments < p.segments.length then some .tooManySegments
  else
    match p.segments.findSome? Segment.structureFault? with
    | some fault => some fault
    | none =>
      if maxHops < p.hopCount then some .tooManyHops
      else p.header.fault?.map StructureFault.ofMalformed

/-- The buffer with the path over its first bytes. -/
def write (p : Path) (b : Bytes) : Bytes :=
  let b := p.header.write b
  let infoBytes := p.infos.length * InfoField.size
  let records := b.drop Header.size
  b.take Header.size
    ++ Bytes.writeRun InfoField.size InfoField.write p.infos (records.take infoBytes)
    ++ Bytes.writeRun HopField.size HopField.write p.hops (records.drop infoBytes)

instance : Wire Path where
  size p := p.lengths.pathBytes
  fault? := structureFault?
  write := write

end Path

end SourceRoute
