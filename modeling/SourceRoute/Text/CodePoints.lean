/-!
# Sets of code points

A property of characters that no rule of arithmetic gives is a table: closed ranges of code points,
written in ascending order.
-/

namespace SourceRoute.Text

/-- A set of code points, given by closed ranges. -/
structure CodePoints where
  ranges : List (Nat × Nat)
deriving DecidableEq

namespace CodePoints

/-- Whether a character belongs to the set. -/
def contains (s : CodePoints) (c : Char) : Bool :=
  s.ranges.any fun (first, last) => first ≤ c.toNat && c.toNat ≤ last

end CodePoints

end SourceRoute.Text
