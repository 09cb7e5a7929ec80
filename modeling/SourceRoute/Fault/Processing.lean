import SourceRoute.Fault.Malformed

/-!
# Faults while a path is processed

The reasons for which a node drops a packet, or for which a path cannot be moved on.
-/

namespace SourceRoute

/-- A reason not to go on with a path. -/
inductive PathFault where
  /-- The path is structurally invalid. -/
  | malformed (cause : Malformed)
  /-- The authentication code of the hop does not match. -/
  | wrongMac (hop : Nat)
  /-- There is no hop after the current one. -/
  | exhausted (hopCount : Nat)
  /-- The hop is no longer valid, since the given number of seconds after the epoch. -/
  | expired (hop expiredAt : Nat)
deriving DecidableEq

namespace PathFault

/-- The message for people. -/
def message : PathFault → String
  | malformed cause => "malformed path: " ++ cause.message
  | wrongMac hop => s!"authentication failed for hop field {hop}"
  | exhausted hopCount => s!"path exhausted after {hopCount} hop fields"
  | expired hop expiredAt => s!"hop field {hop} expired at {expiredAt}"

end PathFault

end SourceRoute
