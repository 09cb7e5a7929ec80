import SourceRoute.Auth.Key
import SourceRoute.Field.Hop
import SourceRoute.Field.Info

/-!
# The authenticated block

The code of a hop field is computed over a block of 32 bytes: segment identifier, timestamp,
lifetime, the interfaces in construction direction, the code of the hop before in construction
order, and the seed of a peering link.  The interfaces are taken as stored if the segment is visited
in construction order and exchanged otherwise, so turning a path round leaves the block unchanged.
-/

namespace SourceRoute

/-- The values that the code of a hop field binds together. -/
structure AuthBlock where
  segmentId : UInt16
  timestamp : UInt32
  expTime : UInt8
  /-- The interface that comes first in construction direction. -/
  ingress : UInt16
  /-- The interface that comes second in construction direction. -/
  egress : UInt16
  /-- The code of the hop before in construction order. -/
  chain : Mac
  /-- The seed of a peering link, zero elsewhere. -/
  seed : PeeringSeed
deriving DecidableEq

namespace AuthBlock

/-- The block of a hop field of a segment. -/
def ofHop (info : InfoField) (hop : HopField) (chain : Mac) (seed : Option PeeringSeed) :
    AuthBlock where
  segmentId := info.segmentId
  timestamp := info.timestamp
  expTime := hop.expTime
  ingress := if info.flags.consDir then hop.ingress else hop.egress
  egress := if info.flags.consDir then hop.egress else hop.ingress
  chain := chain
  seed := seed.getD PeeringSeed.zero

/-- The block written out, 32 bytes. -/
def bytes (m : AuthBlock) : Bytes :=
  Bytes.ofWord 2 m.segmentId.toBitVec ++ Bytes.ofWord 4 m.timestamp.toBitVec
    ++ [0, m.expTime]
    ++ Bytes.ofWord 2 m.ingress.toBitVec ++ Bytes.ofWord 2 m.egress.toBitVec
    ++ List.replicate 4 0
    ++ m.chain.toBytes ++ m.seed.toBytes
    ++ List.replicate 4 0

@[simp] theorem length_bytes (m : AuthBlock) : m.bytes.length = 32 := by
  simp [bytes, Mac.toBytes, PeeringSeed.toBytes]

end AuthBlock

/-- The code of a hop field of a segment under a key. -/
def ForwardingKey.hopMac (key : ForwardingKey) (info : InfoField) (hop : HopField) (chain : Mac)
    (seed : Option PeeringSeed) : Mac :=
  key.authenticate (AuthBlock.ofHop info hop chain seed).bytes

end SourceRoute
