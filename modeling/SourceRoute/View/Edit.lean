import SourceRoute.View.Basic

/-!
# Changing paths in place

The position is moved either unchecked, one index at a time, or both indices at once after a check.
Records are changed one part at a time.  No change alters the number of bytes, and a refused change
alters no byte.
-/

namespace SourceRoute.PathView

/-! ## The position -/

/-- The path with the index of the current segment replaced, unchecked and truncated to two bits. -/
def setCurrentInfo (v : PathView) (index : UInt8) : PathView :=
  ⟨Header.Bits.currentInfo.set index.toBitVec v.bytes⟩

/-- The path with the index of the current hop replaced, unchecked and truncated to six bits. -/
def setCurrentHop (v : PathView) (index : UInt8) : PathView :=
  ⟨Header.Bits.currentHop.set index.toBitVec v.bytes⟩

/-- The path at the position of a header. -/
def moveTo (v : PathView) (h : Header) : PathView :=
  (v.setCurrentInfo h.currentInfo).setCurrentHop h.currentHop

/-- Moves to a position, if it is one that the segment lengths allow. -/
def setPosition (v : PathView) (currentInfo currentHop : UInt8) :
    Except Malformed Header × PathView :=
  match v.header.withPosition currentInfo currentHop with
  | .error fault => (.error fault, v)
  | .ok h => (.ok h, v.moveTo h)

/-- Moves to the next hop, if there is one. -/
def advance (v : PathView) : Except PathFault Header × PathView :=
  match v.header.advance with
  | .error fault => (.error fault, v)
  | .ok h => (.ok h, v.moveTo h)

/-! ## Records -/

/-- The path with one info field changed, if there is such a field. -/
def editInfo? (v : PathView) (index : Nat) (edit : InfoView.Edit) : Option PathView :=
  (v.infoSpan? index).bind fun span =>
    (v.bytes.slice? span).map fun part =>
      ⟨v.bytes.splice span.start ((InfoView.mk part).edit edit).bytes⟩

/-- The path with one hop field changed, if there is such a field. -/
def editHop? (v : PathView) (index : Nat) (edit : HopView.Edit) : Option PathView :=
  (v.hopSpan? index).bind fun span =>
    (v.bytes.slice? span).map fun part =>
      ⟨v.bytes.splice span.start ((HopView.mk part).edit edit).bytes⟩

/-! ## Turning round -/

/-- The path the other way round, at its first hop.  The records change places and each is turned by
itself, so the reserved byte of an info field stays with its segment; the header is written anew,
with its reserved bits zero. -/
def reverse (v : PathView) : PathView :=
  let infos := v.infos.reverse.map InfoView.reversed
  let hops := v.hops.reverse.map HopView.reversed
  ⟨v.header.reversed.write
    (v.bytes.take Header.size ++ infos.flatMap InfoView.bytes ++ hops.flatMap HopView.bytes)⟩

end SourceRoute.PathView
