import SourceRoute.Build.Plan

/-!
# Drafting a plan step by step

A draft is worked out by directives.  Some describe the path: segments, hops, seeds and the initial
position.  Others set the timestamp, lifetime or key that the segments and hops after them get.  A
directive that makes no sense where it stands is remembered, and the first such mistake is what
building the draft reports.
-/

namespace SourceRoute

/-- A step in the description of a path. -/
inductive Directive where
  /-- Sets the timestamp of the segments that follow. -/
  | timestamp (timestamp : UInt32)
  /-- Sets the lifetime of the hops that follow. -/
  | lifetime (expTime : UInt8)
  /-- Sets the key of the hops that follow. -/
  | key (key : ForwardingKey)
  /-- Sets the initial position of the path. -/
  | position (currentInfo currentHop : UInt8)
  /-- Sets the seeds of the peering junction. -/
  | seeds (seeds : PeeringSeeds)
  /-- Adds a segment. -/
  | segment (flags : InfoFlags) (segmentId : UInt16)
  /-- Sets the peering flag of the last segment. -/
  | peering
  /-- Adds a hop to the last segment, with a key of its own if one is given and with its AS if that
  is known. -/
  | hop (ingress egress : UInt16) (key : Option ForwardingKey) (owner : Option IsdAs)
  /-- Adds a fully described hop to the last segment. -/
  | hopOutline (outline : HopOutline) (key : ForwardingKey)

namespace Directive

/-- Adds an up segment, which is visited against construction order. -/
def up (segmentId : UInt16) : Directive := segment InfoFlags.none segmentId

/-- Adds a core segment, which is visited in construction order. -/
def core (segmentId : UInt16) : Directive := segment InfoFlags.alongConstruction segmentId

/-- Adds a down segment, which is visited in construction order. -/
def down (segmentId : UInt16) : Directive := segment InfoFlags.alongConstruction segmentId

end Directive

/-- A segment that is being drafted, with its latest hop first. -/
structure DraftSegment where
  flags : InfoFlags
  segmentId : UInt16
  timestamp : UInt32
  hops : List (HopOutline × ForwardingKey)

namespace DraftSegment

/-- The description that the draft stands for. -/
def outline (s : DraftSegment) : SegmentOutline where
  flags := s.flags
  segmentId := s.segmentId
  timestamp := s.timestamp
  hops := s.hops.reverse.map Prod.fst

/-- The keys of the hops. -/
def keys (s : DraftSegment) : List ForwardingKey := s.hops.reverse.map Prod.snd

/-- The draft with one more hop. -/
def addHop (s : DraftSegment) (outline : HopOutline) (key : ForwardingKey) : DraftSegment :=
  { s with hops := (outline, key) :: s.hops }

/-- The draft with the peering flag set. -/
def withPeering (s : DraftSegment) : DraftSegment := { s with flags := s.flags.withPeering }

end DraftSegment

/-- A path that is being drafted, with its latest segment first. -/
structure Draft where
  segments : List DraftSegment
  seeds : Option PeeringSeeds
  currentInfo : UInt8
  currentHop : UInt8
  /-- The timestamp of the next segment. -/
  timestamp : UInt32
  /-- The lifetime of the next hop. -/
  expTime : UInt8
  /-- The key of the next hop. -/
  key : ForwardingKey
  /-- The first mistake. -/
  mistake : Option BuildFault

namespace Draft

/-- The draft before any directive. -/
def empty : Draft where
  segments := []
  seeds := none
  currentInfo := 0
  currentHop := 0
  timestamp := 0
  expTime := HopOutline.maxExpTime
  key := ForwardingKey.zero
  mistake := none

/-- The draft with its last segment changed.  Without a segment this is a mistake, of which only the
first is kept. -/
def changeLast (d : Draft) (change : DraftSegment → DraftSegment) (mistake : BuildFault) :
    Draft :=
  match d.segments with
  | last :: earlier => { d with segments := change last :: earlier }
  | [] => { d with mistake := d.mistake.or (some mistake) }

/-- The draft after a directive. -/
def apply (d : Draft) : Directive → Draft
  | .timestamp timestamp => { d with timestamp }
  | .lifetime expTime => { d with expTime }
  | .key key => { d with key }
  | .position currentInfo currentHop => { d with currentInfo, currentHop }
  | .seeds seeds => { d with seeds := some seeds }
  | .segment flags segmentId =>
    { d with segments := ⟨flags, segmentId, d.timestamp, []⟩ :: d.segments }
  | .peering => d.changeLast DraftSegment.withPeering .noSegments
  | .hop ingress egress key owner =>
    let outline := { HopOutline.between ingress egress with expTime := d.expTime, owner }
    d.changeLast (·.addHop outline (key.getD d.key)) .hopBeforeSegments
  | .hopOutline outline key => d.changeLast (·.addHop outline key) .hopBeforeSegments

/-- The draft after directives in order. -/
def ofDirectives (directives : List Directive) : Draft := directives.foldl apply empty

/-- The plan that the draft stands for. -/
def plan (d : Draft) : PathPlan where
  segments := d.segments.reverse.map DraftSegment.outline
  keys := d.segments.reverse.map DraftSegment.keys
  seeds := d.seeds
  currentInfo := d.currentInfo
  currentHop := d.currentHop

/-- The path that is built from the draft. -/
def build (d : Draft) : Except BuildFault Path :=
  match d.mistake with
  | some fault => .error fault
  | none => d.plan.build

end Draft

end SourceRoute
