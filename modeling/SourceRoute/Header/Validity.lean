import SourceRoute.Header.Basic

/-!
# Valid headers

Lengths are valid if the segments with hops come first, none is longer than 63 hops, and the path
has between 1 and 64 hops.  A header is valid if its lengths are and the current segment owns the
current hop.  Of several faults the first in the order of the checks is reported.
-/

namespace SourceRoute

namespace SegmentLengths

/-- The first segment that has hops although the one before it has none. -/
def gap? (l : SegmentLengths) : Option Nat :=
  if l.first = 0 ∧ l.second ≠ 0 then some 1
  else if l.second = 0 ∧ l.third ≠ 0 then some 2
  else none

/-- What is wrong with the lengths, if anything. -/
def fault? (l : SegmentLengths) : Option Malformed :=
  if l.hopCount = 0 then some .empty
  else
    match l.gap? with
    | some segment => some (.gap segment)
    | none =>
      match l.toList.find? (maxSegmentLength < ·) with
      | some length => some (.tooManyHops length maxSegmentLength)
      | none => if maxHops < l.hopCount then some (.tooManyHops l.hopCount maxHops) else none

end SegmentLengths

namespace Header

/-- What is wrong with the position, if anything. -/
def positionFault? (h : Header) : Option Malformed :=
  match h.currentSegment? with
  | none => some (.hopOutOfRange h.currentHop h.hopCount)
  | some owner =>
    if h.currentInfo.toNat = owner then none
    else some (.infoMismatch h.currentInfo (UInt8.ofNat owner))

/-- What is wrong with the header, if anything.  The lengths are looked at first. -/
def fault? (h : Header) : Option Malformed := h.lengths.fault?.or h.positionFault?

/-- The header itself if nothing is wrong with it. -/
def validate (h : Header) : Except Malformed Header :=
  match h.fault? with
  | some fault => .error fault
  | none => .ok h

/-- The header at another position, if that is one the segment lengths allow. -/
def withPosition (h : Header) (currentInfo currentHop : UInt8) : Except Malformed Header :=
  { h with currentInfo, currentHop }.validate

end Header

end SourceRoute
