import SourceRoute.Fault.Building
import SourceRoute.IsdAs
import SourceRoute.Path.Basic

/-!
# Descriptions of segments

A path is built from descriptions of its segments.  A description gives everything but the
authentication codes; it may also name the AS of each hop, which a search for a common AS needs.
-/

namespace SourceRoute

/-- The description of a hop. -/
structure HopOutline where
  flags : HopFlags
  expTime : UInt8
  /-- The first interface, as stored. -/
  ingress : UInt16
  /-- The second interface, as stored. -/
  egress : UInt16
  /-- The AS that the hop crosses, if it is known. -/
  owner : Option IsdAs
deriving DecidableEq

namespace HopOutline

/-- The longest lifetime. -/
def maxExpTime : UInt8 := 255

/-- A hop between two interfaces with the longest lifetime, no flags and no known AS. -/
def between (ingress egress : UInt16) : HopOutline where
  flags := HopFlags.none
  expTime := maxExpTime
  ingress := ingress
  egress := egress
  owner := none

/-- The described hop, with the zero code. -/
def toField (h : HopOutline) : HopField where
  flags := h.flags
  expTime := h.expTime
  ingress := h.ingress
  egress := h.egress
  mac := Mac.zero

end HopOutline

/-- The description of a segment, its hops in the order of the visit. -/
structure SegmentOutline where
  flags : InfoFlags
  segmentId : UInt16
  timestamp : UInt32
  hops : List HopOutline
deriving DecidableEq

namespace SegmentOutline

/-- The number of hops. -/
def size (s : SegmentOutline) : Nat := s.hops.length

/-- The described info field. -/
def info (s : SegmentOutline) : InfoField where
  flags := s.flags
  segmentId := s.segmentId
  timestamp := s.timestamp

/-- The described segment, with zero codes. -/
def toSegment (s : SegmentOutline) : Segment where
  info := s.info
  hops := s.hops.map HopOutline.toField

/-- The description with the peering flag set. -/
def withPeering (s : SegmentOutline) : SegmentOutline := { s with flags := s.flags.withPeering }

/-- What is wrong with the description, counted as the segment at an index, if anything. -/
def fault? (s : SegmentOutline) (index : Nat) : Option BuildFault :=
  if s.hops = [] then some (.emptySegment index)
  else if maxSegmentLength < s.size then some (.tooManyHops s.size maxSegmentLength)
  else none

end SegmentOutline

namespace BuildFault

/-- What is wrong with the number and the lengths of described segments, if anything. -/
def ofSegments? (segments : List SegmentOutline) : Option BuildFault :=
  if segments = [] then some .noSegments
  else if maxSegments < segments.length then some (.tooManySegments segments.length)
  else
    match segments.zipIdx.findSome? fun (s, index) => s.fault? index with
    | some fault => some fault
    | none =>
      let total := Runs.total (segments.map SegmentOutline.size)
      if maxHops < total then some (.tooManyHops total maxHops) else none

/-- The first segment with a different number of hops and of keys, if there is one. -/
def ofKeyCounts? {α : Type} (segments : List SegmentOutline) (keys : List (List α)) :
    Option BuildFault :=
  (segments.zip keys).zipIdx.findSome? fun ((s, ks), index) =>
    if s.size = ks.length then none else some (.keyCount index s.size ks.length)

end BuildFault

end SourceRoute
