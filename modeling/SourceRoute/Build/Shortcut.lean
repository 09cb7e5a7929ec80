import SourceRoute.Build.Plan

/-!
# Shortcuts

An up and a down segment that cross the same AS can be joined there instead of at the core.  The
first hop of the up segment whose AS is also on the down segment is where they are joined, at the
first place where that AS stands on the down segment.  Both segments are cut at it, and a part that
consists of the common hop alone is left out.
-/

namespace SourceRoute

/-- A segment description with the keys of its hops. -/
structure KeyedSegment where
  outline : SegmentOutline
  keys : List ForwardingKey

/-- Where an up and a down segment cross the same AS. -/
structure CommonHop where
  owner : IsdAs
  /-- The index of the hop on the up segment. -/
  up : Nat
  /-- The index of the hop on the down segment. -/
  down : Nat
deriving DecidableEq

namespace CommonHop

/-- The first AS of a list that is also on another list, with the first index of it on each. -/
def find? (up down : List IsdAs) : Option CommonHop :=
  up.zipIdx.findSome? fun (owner, i) =>
    (down.findIdx? (· = owner)).map fun j => ⟨owner, i, j⟩

end CommonHop

/-- The ASes of the hops of a segment, which has the given index.  The first hop without a known AS
is a mistake. -/
def SegmentOutline.owners (s : SegmentOutline) (segment : Nat) : Except BuildFault (List IsdAs) :=
  match s.hops.findIdx? (·.owner = none) with
  | some hop => .error (.ownerUnknown segment hop)
  | none => .ok (s.hops.filterMap HopOutline.owner)

/-- An up and a down segment that are to be joined at an AS that both cross. -/
structure Shortcut where
  up : KeyedSegment
  down : KeyedSegment

namespace Shortcut

/-- What is wrong with the segments or their keys, if anything. -/
def fault? (s : Shortcut) : Option BuildFault :=
  (BuildFault.ofSegments? [s.up.outline, s.down.outline]).or
    (BuildFault.ofKeyCounts? [s.up.outline, s.down.outline] [s.up.keys, s.down.keys])

/-- Where the segments are joined. -/
def commonHop (s : Shortcut) : Except BuildFault CommonHop :=
  match s.fault? with
  | some fault => .error fault
  | none =>
    match s.up.outline.owners 0, s.down.outline.owners 1 with
    | .error fault, _ => .error fault
    | _, .error fault => .error fault
    | .ok up, .ok down =>
      match CommonHop.find? up down with
      | none => .error .noCommonAs
      | some common => .ok common

/-- The up segment up to the common hop. -/
def upPart (s : Shortcut) (common : CommonHop) : KeyedSegment where
  outline := { s.up.outline with hops := s.up.outline.hops.take (common.up + 1) }
  keys := s.up.keys.take (common.up + 1)

/-- The down segment from the common hop on. -/
def downPart (s : Shortcut) (common : CommonHop) : KeyedSegment where
  outline := { s.down.outline with hops := s.down.outline.hops.drop common.down }
  keys := s.down.keys.drop common.down

/-- The parts that make up the path.  Of two parts that both consist of the common hop, the up part
stays. -/
def parts (s : Shortcut) (common : CommonHop) : List KeyedSegment :=
  let up := s.upPart common
  let down := s.downPart common
  if down.outline.size = 1 then [up]
  else if up.outline.size = 1 then [down]
  else [up, down]

/-- The plan of the path through a common hop. -/
def plan (s : Shortcut) (common : CommonHop) : PathPlan where
  segments := (s.parts common).map KeyedSegment.outline
  keys := (s.parts common).map KeyedSegment.keys
  seeds := none
  currentInfo := 0
  currentHop := 0

/-- The path that joins the segments, at its first hop.  Its codes are computed anew. -/
def build (s : Shortcut) : Except BuildFault Path :=
  match s.commonHop with
  | .error fault => .error fault
  | .ok common => (s.plan common).build

end Shortcut

end SourceRoute
