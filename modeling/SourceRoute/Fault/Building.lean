import SourceRoute.Fault.Malformed

/-!
# Faults while building

Mistakes in the description of a path, found when the path is built from it.
-/

namespace SourceRoute

/-- A mistake in the description of a path. -/
inductive BuildFault where
  /-- There is no segment. -/
  | noSegments
  /-- There are more than three segments. -/
  | tooManySegments (count : Nat)
  /-- A hop is described before the first segment. -/
  | hopBeforeSegments
  /-- The segment has no hop. -/
  | emptySegment (segment : Nat)
  /-- A segment, or the whole path, has more hops than a header can describe. -/
  | tooManyHops (total max : Nat)
  /-- The segment has a different number of hops and of keys. -/
  | keyCount (segment expected actual : Nat)
  /-- There is a different number of segments and of key lists. -/
  | keyGroupCount (expected actual : Nat)
  /-- The peering junction behind the segment needs seeds. -/
  | seedsMissing (segment : Nat)
  /-- There are seeds but no peering junction. -/
  | seedsUnexpected
  /-- The initial position does not exist. -/
  | badPosition (cause : Malformed)
  /-- The up and the down segment share no AS. -/
  | noCommonAs
  /-- The hop has no AS, although the search for a common one needs it. -/
  | ownerUnknown (segment hop : Nat)
deriving DecidableEq

namespace BuildFault

/-- The message for people. -/
def message : BuildFault → String
  | noSegments => "path must contain at least one segment"
  | tooManySegments count => s!"path can not contain more than 3 segments, got {count}"
  | hopBeforeSegments => "hop added before the first segment"
  | emptySegment segment => s!"segment {segment} contains no hop fields"
  | tooManyHops total max => s!"path contains {total} hop fields, at most {max} are allowed"
  | keyCount segment expected actual =>
    s!"segment {segment} has {expected} hop fields but {actual} keys"
  | keyGroupCount expected actual =>
    s!"path has {expected} segments but {actual} key lists"
  | seedsMissing segment =>
    s!"peering junction after segment {segment} requires peering seeds"
  | seedsUnexpected => "peering seeds supplied for a path without peering junction"
  | badPosition cause => "invalid initial pointers: " ++ cause.message
  | noCommonAs => "up and down segment have no AS in common"
  | ownerUnknown segment hop => s!"hop {hop} of segment {segment} has no AS identifier"

/-- The same mistake, found in the segment at `index`.  Only mistakes that a segment makes by itself
are moved. -/
def atSegment (index : Nat) : BuildFault → BuildFault
  | keyCount _ expected actual => keyCount index expected actual
  | emptySegment _ => emptySegment index
  | fault => fault

end BuildFault

end SourceRoute
