import SourceRoute.Auth.Chain
import SourceRoute.Build.Outline

/-!
# Building a path from a plan

A plan is all that a path is built from: descriptions of the segments, the keys of their hops, the
seeds of a peering junction, and the initial position.  `fault?` names the first mistake in a plan.
A plan without mistakes is turned into a path whose segments each carry the right codes.
-/

namespace SourceRoute

/-- The seeds of the two hops next to a peering junction. -/
structure PeeringSeeds where
  /-- The seed of the hop before the junction. -/
  before : PeeringSeed
  /-- The seed of the hop behind the junction. -/
  after : PeeringSeed
deriving DecidableEq

/-- All that a path is built from. -/
structure PathPlan where
  segments : List SegmentOutline
  /-- One key for each hop, grouped like the segments. -/
  keys : List (List ForwardingKey)
  seeds : Option PeeringSeeds
  currentInfo : UInt8
  currentHop : UInt8

namespace PathPlan

/-! ## Peering junctions -/

/-- For each boundary between two segments, whether both have the peering flag. -/
def junctions (p : PathPlan) : List Bool :=
  List.zipWith (fun before after => before.flags.peering && after.flags.peering)
    p.segments p.segments.tail

/-- Whether the boundary behind a segment is a peering junction. -/
def junctionAfter (p : PathPlan) (segment : Nat) : Bool := p.junctions.getD segment false

/-- Whether the boundary before a segment is a peering junction. -/
def junctionBefore (p : PathPlan) (segment : Nat) : Bool :=
  0 < segment && p.junctionAfter (segment - 1)

/-- The seeds of the outer hops of a segment. -/
def outerSeeds (p : PathPlan) (segment : Nat) : OuterSeeds where
  first := if p.junctionBefore segment then p.seeds.map PeeringSeeds.after else none
  last := if p.junctionAfter segment then p.seeds.map PeeringSeeds.before else none

/-! ## Mistakes -/

/-- What is wrong with the keys, if anything. -/
def keyFault? (p : PathPlan) : Option BuildFault :=
  if p.keys.length = p.segments.length then BuildFault.ofKeyCounts? p.segments p.keys
  else some (.keyGroupCount p.segments.length p.keys.length)

/-- What is wrong with the seeds, if anything.  They are needed exactly if there is a peering
junction. -/
def seedFault? (p : PathPlan) : Option BuildFault :=
  match p.junctions.findIdx? id, p.seeds with
  | some segment, none => some (.seedsMissing segment)
  | none, some _ => some .seedsUnexpected
  | _, _ => none

/-- The header of the planned path, for segments that a header describes. -/
def header (p : PathPlan) : Header :=
  -- a size that does not fit a byte is a mistake in the segments, which are looked at first
  let size (segment : Nat) := UInt8.ofNat ((p.segments.map SegmentOutline.size).getD segment 0)
  { currentInfo := p.currentInfo
    currentHop := p.currentHop
    lengths := ⟨size 0, size 1, size 2⟩ }

/-- What is wrong with the plan, if anything: the segments, then the keys, the seeds and the
position. -/
def fault? (p : PathPlan) : Option BuildFault :=
  (BuildFault.ofSegments? p.segments).or <| p.keyFault?.or <| p.seedFault?.or <|
    p.header.fault?.map .badPosition

/-! ## Building -/

/-- The path that a plan without mistakes stands for. -/
def path (p : PathPlan) : Path where
  currentInfo := p.currentInfo
  currentHop := p.currentHop
  segments := (p.segments.zip p.keys).mapIdx fun index (s, keys) =>
    s.toSegment.signed keys (p.outerSeeds index)

/-- The path that is built from a plan. -/
def build (p : PathPlan) : Except BuildFault Path :=
  match p.fault? with
  | some fault => .error fault
  | none => .ok p.path

end PathPlan

end SourceRoute
