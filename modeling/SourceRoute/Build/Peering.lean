import SourceRoute.Build.Shortcut

/-!
# Paths over a peering link

An up and a down segment whose ends are joined by a peering link make up a path of two segments that
both have the peering flag.
-/

namespace SourceRoute

/-- An up and a down segment with a peering link from the end of the first to the start of the
second, and the seeds of the two hops next to it. -/
structure PeeringRoute where
  up : KeyedSegment
  down : KeyedSegment
  seeds : PeeringSeeds

namespace PeeringRoute

/-- The plan of the path over the link. -/
def plan (r : PeeringRoute) : PathPlan where
  segments := [r.up.outline.withPeering, r.down.outline.withPeering]
  keys := [r.up.keys, r.down.keys]
  seeds := some r.seeds
  currentInfo := 0
  currentHop := 0

/-- The path over the link, at its first hop. -/
def build (r : PeeringRoute) : Except BuildFault Path := r.plan.build

end PeeringRoute

end SourceRoute
