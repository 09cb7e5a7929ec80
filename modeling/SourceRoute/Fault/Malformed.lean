/-!
# Malformed paths

The ways in which the wire form of a path, or a header that describes a path, can be inconsistent.
Each cause carries the numbers that its message names.
-/

namespace SourceRoute

/-- The parts of the wire form that a buffer can be too short for. -/
inductive WirePart where
  /-- The four bytes of the header. -/
  | header
  /-- The info and hop fields behind the header. -/
  | records
  /-- A single info field. -/
  | infoField
  /-- A single hop field. -/
  | hopField
deriving DecidableEq

namespace WirePart

/-- The name of the part in messages. -/
def label : WirePart → String
  | header => "StdPathMeta"
  | records => "StdPathData"
  | infoField => "InfoFieldView"
  | hopField => "HopFieldView"

end WirePart

/-- A structural violation in a path. -/
inductive Malformed where
  /-- The buffer ends before the part does. -/
  | tooShort (part : WirePart) (required actual : Nat)
  /-- All segment lengths are zero. -/
  | empty
  /-- The segment has hops although the one before it has none. -/
  | gap (segment : Nat)
  /-- The path has more segments than a header describes. -/
  | tooManySegments (count : Nat)
  /-- A segment, or the whole path, has more hops than a header can describe. -/
  | tooManyHops (total max : Nat)
  /-- The current hop lies past the last hop. -/
  | hopOutOfRange (currentHop : UInt8) (hopCount : Nat)
  /-- The current info field is not that of the segment that owns the current hop. -/
  | infoMismatch (currentInfo expected : UInt8)
deriving DecidableEq

namespace Malformed

/-- The message for people. -/
def message : Malformed → String
  | tooShort part required actual =>
    s!"buffer too small at {part.label}: required {required}, actual {actual}"
  | empty => "path contains no hop fields"
  | gap segment => s!"segment {segment} is non-empty but follows an empty segment"
  | tooManySegments count => s!"path contains {count} segments, at most 3 are allowed"
  | tooManyHops total max => s!"path contains {total} hop fields, at most {max} are allowed"
  | hopOutOfRange currentHop hopCount =>
    s!"current hop field {currentHop} out of range for {hopCount} hop fields"
  | infoMismatch currentInfo expected =>
    s!"current info field {currentInfo} does not own the current hop, expected {expected}"

/-- The structured text for logs: the name of the cause and its numbers by name. -/
def describe : Malformed → String
  | tooShort part required actual =>
    "BufferTooSmall \x7b at: \"" ++ part.label ++
      s!"\", required: {required}, actual: {actual} \x7d"
  | empty => "Empty"
  | gap segment => s!"SegmentGap \x7b segment: {segment} \x7d"
  | tooManySegments count => s!"TooManySegments \x7b count: {count} \x7d"
  | tooManyHops total max => s!"TooManyHops \x7b total: {total}, max: {max} \x7d"
  | hopOutOfRange currentHop hopCount =>
    s!"CurrentHopOutOfRange \x7b curr_hf: {currentHop}, hop_count: {hopCount} \x7d"
  | infoMismatch currentInfo expected =>
    s!"CurrentInfoMismatch \x7b curr_inf: {currentInfo}, expected: {expected} \x7d"

end Malformed

end SourceRoute
