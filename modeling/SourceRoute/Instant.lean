/-!
# Points in time

Time is counted in nanoseconds from the epoch, the start of the year 1970.  Points before the epoch
have negative counts.
-/

namespace SourceRoute

/-- A point in time. -/
structure Instant where
  /-- Nanoseconds since the epoch. -/
  nanoseconds : Int
deriving DecidableEq

namespace Instant

/-- The number of nanoseconds in a second. -/
def perSecond : Nat := 1000000000

instance : LT Instant := ⟨fun a b => a.nanoseconds < b.nanoseconds⟩

instance (a b : Instant) : Decidable (a < b) :=
  inferInstanceAs (Decidable (a.nanoseconds < b.nanoseconds))

/-- The point the given time after the epoch. -/
def ofEpoch (seconds : Int) (nanoseconds : Nat) : Instant := ⟨seconds * perSecond + nanoseconds⟩

/-- The point some nanoseconds later. -/
def later (t : Instant) (nanoseconds : Nat) : Instant := ⟨t.nanoseconds + nanoseconds⟩

/-- Whole seconds since the epoch, rounded down. -/
def seconds (t : Instant) : Int := t.nanoseconds / (perSecond : Int)

/-- The nanoseconds past the last whole second. -/
def subsecond (t : Instant) : Nat := (t.nanoseconds % (perSecond : Int)).toNat

end Instant

end SourceRoute
