import SourceRoute.Auth.Block
import SourceRoute.Records

/-!
# Authenticating the current hop

A node looks only at the hop that the position names and at the hop before it in construction order.
Seeds count only at hops next to a peering junction, where two adjacent segments both have the
peering flag.
-/

namespace SourceRoute

/-- The index of the hop before `hop` in construction order, within the span of its segment. -/
def previousInChain? (segment : Span) (hop : Nat) (consDir : Bool) : Option Nat :=
  if consDir then
    if segment.start < hop then some (hop - 1) else none
  else
    if hop + 1 < segment.stop then some (hop + 1) else none

/-- Whether a segment has the peering flag. -/
def hasPeering (info? : Nat → Option InfoField) (segment : Nat) : Bool :=
  (info? segment).any fun info => info.flags.peering

/-- Whether a hop is next to a peering junction: the last hop of a segment before one, or the first
hop of a segment behind one. -/
def bordersJunction (lengths : SegmentLengths) (info? : Nat → Option InfoField) (hop : Nat) :
    Bool :=
  match lengths.segmentOf? hop with
  | none => false
  | some segment =>
    let span := lengths.segmentSpan segment
    let junctionAfter := hop + 1 = span.stop && segment + 1 < lengths.infoCount
      && hasPeering info? (segment + 1)
    let junctionBefore := hop = span.start && 0 < segment && hasPeering info? (segment - 1)
    hasPeering info? segment && (junctionAfter || junctionBefore)

/-- All that is needed to authenticate the current hop of a path. -/
structure CurrentHop where
  /-- The index of the hop on the whole path. -/
  index : Nat
  /-- The index of the segment that owns it. -/
  segment : Nat
  info : InfoField
  hop : HopField
  /-- The code of the hop before in construction order, zero for the first one. -/
  chain : Mac
  /-- Whether the hop is next to a peering junction. -/
  atJunction : Bool
deriving DecidableEq

namespace CurrentHop

/-- The current hop of a path.  The header has to be valid. -/
def locate (source : RecordSource) : Except PathFault CurrentHop :=
  match source.header with
  | .error cause => .error (.malformed cause)
  | .ok h =>
    let index := h.currentHop.toNat
    let segment := h.currentInfo.toNat
    match source.info? segment, source.hop? index with
    | some info, some hop =>
      let before := previousInChain? (h.lengths.segmentSpan segment) index info.flags.consDir
      .ok {
        index, segment, info, hop
        chain := ((before.bind source.hop?).map HopField.mac).getD Mac.zero
        atJunction := bordersJunction h.lengths source.info? index }
    -- a valid header names records that are there
    | _, _ => .error (.malformed (.hopOutOfRange h.currentHop h.hopCount))

/-- The block that the code of the hop is computed over.  The seed is left out except next to a
peering junction. -/
def authBlock (a : CurrentHop) (seed : Option PeeringSeed) : AuthBlock :=
  AuthBlock.ofHop a.info a.hop a.chain (if a.atJunction then seed else none)

/-- Whether the hop carries the right code. -/
def verify (a : CurrentHop) (key : ForwardingKey) (seed : Option PeeringSeed) : Bool :=
  key.authenticate (a.authBlock seed).bytes = a.hop.mac

/-- Refuses a hop that does not carry the right code. -/
def authenticate (a : CurrentHop) (key : ForwardingKey) (seed : Option PeeringSeed) :
    Except PathFault Unit :=
  if a.verify key seed then .ok () else .error (.wrongMac a.index)

end CurrentHop

namespace RecordSource

/-- Authenticates the current hop of a path. -/
def authenticate (source : RecordSource) (key : ForwardingKey) (seed : Option PeeringSeed) :
    Except PathFault Unit :=
  match CurrentHop.locate source with
  | .error fault => .error fault
  | .ok current => current.authenticate key seed

/-- Whether the current hop of a path exists and carries the right code. -/
def verify (source : RecordSource) (key : ForwardingKey) (seed : Option PeeringSeed) : Bool :=
  match source.authenticate key seed with
  | .ok _ => true
  | .error _ => false

end RecordSource

end SourceRoute
