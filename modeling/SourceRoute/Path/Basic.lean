import SourceRoute.Records

/-!
# Owned paths

A path is a list of segments, each an info field with its hop fields in the order in which they are
visited, and the current position.  The type allows any number of segments and hops and any
position.  `header` describes the path as well as a header can, and `checkedHeader` refuses a path
that no valid header describes.
-/

namespace SourceRoute

/-- An info field and the hop fields that belong to it, in the order of the visit. -/
structure Segment where
  info : InfoField
  hops : List HopField
deriving DecidableEq

namespace Segment

/-- The number of hops. -/
def size (s : Segment) : Nat := s.hops.length

/-- A list put from the stored order into construction order, or back.  The two orders are the same
when the segment is visited in construction order, and opposite otherwise. -/
def orient {α : Type} (consDir : Bool) (l : List α) : List α := if consDir then l else l.reverse

/-- The indices of the hops in construction order. -/
def constructionIndices (s : Segment) : List Nat :=
  orient s.info.flags.consDir (List.range s.size)

/-- The segment visited the other way. -/
def reversed (s : Segment) : Segment where
  info := s.info.reversed
  hops := s.hops.reverse.map HopField.reversed

end Segment

/-- A path, with the current position on it. -/
structure Path where
  /-- The index of the current segment. -/
  currentInfo : UInt8
  /-- The index of the current hop on the whole path. -/
  currentHop : UInt8
  segments : List Segment
deriving DecidableEq

namespace Path

/-! ## Hops and segments -/

/-- The numbers of hops of the segments. -/
def sizes (p : Path) : List Nat := p.segments.map Segment.size

/-- The number of hops of the path. -/
def hopCount (p : Path) : Nat := Runs.total p.sizes

/-- The number of segments. -/
def infoCount (p : Path) : Nat := p.segments.length

/-- All hop fields, in the order of the visit. -/
def hops (p : Path) : List HopField := p.segments.flatMap Segment.hops

/-- All info fields, in the order of the visit. -/
def infos (p : Path) : List InfoField := p.segments.map Segment.info

/-- The segment that owns a hop, with the index of the hop inside the segment. -/
def locate? (p : Path) (hop : Nat) : Option (Nat × Nat) := Runs.locate p.sizes hop

/-- The hop field at an index on the whole path. -/
def hop? (p : Path) (hop : Nat) : Option HopField :=
  (p.locate? hop).bind fun (segment, index) =>
    p.segments[segment]?.bind fun s => s.hops[index]?

/-- The info field of a segment. -/
def info? (p : Path) (segment : Nat) : Option InfoField := p.segments[segment]?.map Segment.info

/-- The segment that owns the current hop. -/
def currentSegment? (p : Path) : Option Segment :=
  (p.locate? p.currentHop.toNat).bind fun (segment, _) => p.segments[segment]?

/-- The current hop field. -/
def currentHop? (p : Path) : Option HopField := p.hop? p.currentHop.toNat

/-! ## The header of a path -/

/-- A number of hops as a byte of a header; 255 stands for that many hops or more. -/
def saturate (n : Nat) : UInt8 := UInt8.ofNat (min n 255)

/-- The lengths of the first three segments, as far as a header can tell them. -/
def lengths (p : Path) : SegmentLengths where
  first := saturate (p.sizes.getD 0 0)
  second := saturate (p.sizes.getD 1 0)
  third := saturate (p.sizes.getD 2 0)

/-- The header that describes the path as well as a header can. -/
def header (p : Path) : Header := ⟨p.currentInfo, p.currentHop, p.lengths⟩

/-- The header of the path, if a valid header describes all of it. -/
def checkedHeader (p : Path) : Except Malformed Header :=
  if maxSegments < p.segments.length then .error (.tooManySegments p.segments.length)
  else
    match p.sizes.find? (255 < ·) with
    | some size => .error (.tooManyHops size maxSegmentLength)
    | none => p.header.validate

/-- The path as a source of records. -/
def records (p : Path) : RecordSource where
  header := p.checkedHeader
  lengths? := if maxSegments < p.segments.length then none else p.lengths.checked?
  info? := p.info?
  hop? := p.hop?

/-! ## Moving on and turning round -/

/-- The path at its next hop. -/
def advance (p : Path) : Except PathFault Path :=
  match p.checkedHeader with
  | .error cause => .error (.malformed cause)
  | .ok h =>
    match h.advance with
    | .error fault => .error fault
    | .ok next =>
      .ok { p with currentInfo := next.currentInfo, currentHop := next.currentHop }

/-- The path the other way round, at its first hop.  Segments and hops come in the opposite order,
each hop is crossed the other way, and each segment is visited the other way; the authentication
codes stay as they are. -/
def reversed (p : Path) : Path where
  currentInfo := 0
  currentHop := 0
  segments := p.segments.reverse.map Segment.reversed

end Path

end SourceRoute
