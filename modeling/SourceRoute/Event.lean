import SourceRoute.Build.Draft
import SourceRoute.Build.Peering
import SourceRoute.Router

/-!
# Events

What nodes and builders do is recorded as events with a level, a message and named values.  A node
records one event for each packet.  Building a path records a success and, for a shortcut, where the
segments are joined; mistakes in a plan are reported to the caller and not recorded.
-/

namespace SourceRoute

/-- How much attention an event needs. -/
inductive Level where
  | trace
  | debug
  | warn
deriving DecidableEq

namespace Level

/-- The name of a level. -/
def name : Level → String
  | trace => "TRACE"
  | debug => "DEBUG"
  | warn => "WARN"

end Level

/-- Something worth recording. -/
inductive Event where
  /-- A packet was delivered at a hop. -/
  | delivering (hop : Nat)
  /-- A packet was passed on from a hop to the next. -/
  | forwarding (hop next : Nat) (segmentChange : Bool)
  /-- A packet was dropped. -/
  | dropping (fault : PathFault)
  /-- A path was built. -/
  | built (segments hops : Nat) (peering : Bool)
  /-- An up and a down segment were found to cross the same AS. -/
  | foundShortcut (junction : IsdAs) (upHops downHops : Nat)

namespace Event

/-! ## Text -/

/-- The level of an event. -/
def level : Event → Level
  | delivering _ => .trace
  | forwarding _ _ _ => .trace
  | dropping (.wrongMac _) => .warn
  | dropping (.exhausted _) => .warn
  | dropping (.expired _ _) => .debug
  | dropping (.malformed _) => .debug
  | built _ _ _ => .debug
  | foundShortcut _ _ _ => .debug

/-- The message of an event. -/
def message : Event → String
  | delivering _ => "Delivering packet locally"
  | forwarding _ _ _ => "Forwarding packet"
  | dropping (.wrongMac _) => "Dropping packet, hop field authentication failed"
  | dropping (.exhausted _) => "Dropping packet, path exhausted"
  | dropping (.expired _ _) => "Dropping packet, hop field expired"
  | dropping (.malformed _) => "Dropping packet, malformed path"
  | built _ _ _ => "Built standard path"
  | foundShortcut _ _ _ => "Found shortcut"

/-- The named values of an event. -/
def fields : Event → List (String × String)
  | delivering hop => [("hop_index", toString hop)]
  | forwarding hop next segmentChange =>
    [("hop_index", toString hop), ("next_hop_index", toString next),
     ("segment_change", toString segmentChange)]
  | dropping (.wrongMac hop) => [("hop_index", toString hop)]
  | dropping (.exhausted hopCount) => [("hop_count", toString hopCount)]
  | dropping (.expired hop expiredAt) =>
    [("hop_index", toString hop), ("expired_at", toString expiredAt)]
  | dropping (.malformed cause) => [("err", cause.describe)]
  | built segments hops peering =>
    [("segments", toString segments), ("hops", toString hops), ("peering", toString peering)]
  | foundShortcut junction upHops downHops =>
    [("junction", toString junction), ("up_hops", toString upHops),
     ("down_hops", toString downHops)]

end Event

/-! ## Where events arise -/

/-- The event of a packet that had the given bytes, from what was done with it. -/
def Router.eventOf (before : Bytes) : Except PathFault Outcome → Event
  | .error fault => .dropping fault
  | .ok outcome =>
    let hop := (Header.read before).currentHop.toNat
    match outcome with
    | .delivered => .delivering hop
    | .forwarded segmentChange => .forwarding hop (hop + 1) segmentChange

/-- The events of building from a plan. -/
def PathPlan.events (p : PathPlan) : List Event :=
  match p.build with
  | .error _ => []
  | .ok path => [.built path.infoCount path.hopCount p.seeds.isSome]

/-- The events of building a shortcut. -/
def Shortcut.events (s : Shortcut) : List Event :=
  match s.commonHop with
  | .error _ => []
  | .ok common =>
    .foundShortcut common.owner (common.up + 1) (s.down.outline.size - common.down)
      :: (s.plan common).events

/-- The events of building from a draft. -/
def Draft.events (d : Draft) : List Event :=
  match d.mistake with
  | some _ => []
  | none => d.plan.events

end SourceRoute
