/-!
# Faults while encoding

An owned path may be of any shape.  Only shapes that a decoder accepts again are encoded, and only
into a buffer that is long enough.
-/

namespace SourceRoute

/-- A shape that has no wire form. -/
inductive StructureFault where
  /-- The path has no segment. -/
  | noSegments
  /-- The path has more than three segments. -/
  | tooManySegments
  /-- A segment has more than 63 hops. -/
  | segmentTooLong
  /-- A segment has no hop. -/
  | emptySegment
  /-- The path has more than 64 hops. -/
  | tooManyHops
  /-- The current hop lies past the last hop. -/
  | hopOutOfRange
  /-- The current info field is not that of the segment that owns the current hop. -/
  | infoMismatch
  /-- The segment lengths do not fit together. -/
  | inconsistentLengths
deriving DecidableEq

namespace StructureFault

/-- The message for people, without what it is about. -/
def reason : StructureFault → String
  | noSegments => "Standard path must contain at least one segment"
  | tooManySegments => "Standard path can not contain more than 3 segments"
  | segmentTooLong => "Number of hop fields in segment exceeds maximum allowed"
  | emptySegment => "Segment must contain at least one hop field"
  | tooManyHops => "Number of hop fields in path exceeds maximum allowed"
  | hopOutOfRange => "curr_hop_field exceeds total number of hop fields"
  | infoMismatch => "current_info_field does not match the segment of curr_hop_field"
  | inconsistentLengths => "inconsistent segment lengths"

/-- The message for people. -/
def message (fault : StructureFault) : String := "cannot encode structure: " ++ fault.reason

end StructureFault

/-- A reason not to encode. -/
inductive EncodeFault where
  /-- The value has no wire form. -/
  | noWireForm (fault : StructureFault)
  /-- The wire form needs the given number of bytes, and the buffer has fewer. -/
  | noRoom (required : Nat)
deriving DecidableEq

namespace EncodeFault

/-- The message for people. -/
def message : EncodeFault → String
  | noWireForm fault => fault.message
  | noRoom required => s!"buffer too small: required {required}"

end EncodeFault

end SourceRoute
