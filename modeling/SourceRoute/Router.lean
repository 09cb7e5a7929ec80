import SourceRoute.Auth.Current
import SourceRoute.View.Edit

/-!
# Forwarding

A node takes the path at the front of a packet, checks it, checks that the current hop is still
valid and carries the right code, and moves the position on by one hop, or delivers the packet if
there is no further hop.  A packet that fails a check is dropped, and its bytes are left as they
are.
-/

namespace SourceRoute

/-- What a node does with a packet that passes the checks. -/
inductive Outcome where
  /-- The current hop is the last one, and the packet stays here. -/
  | delivered
  /-- The position was moved to the next hop, maybe in another segment. -/
  | forwarded (segmentChange : Bool)
deriving DecidableEq

/-- A node that forwards packets for one AS. -/
structure Router where
  key : ForwardingKey
  /-- Whether packets with an expired hop are dropped. -/
  checkExpiry : Bool

namespace Router

/-- A node that checks expiry. -/
def ofKey (key : ForwardingKey) : Router := ⟨key, true⟩

/-- Refuses a hop that is no longer valid, unless expiry is not checked. -/
def checkLifetime (r : Router) (current : CurrentHop) (now : Instant) : Except PathFault Unit :=
  let expiry := current.hop.expiry current.info.timestamp
  if r.checkExpiry ∧ expiry < now then .error (.expired current.index expiry.seconds.toNat)
  else .ok ()

/-- The current hop of a path, if it passes all checks. -/
def acceptHop (r : Router) (view : PathView) (seed : Option PeeringSeed) (now : Instant) :
    Except PathFault CurrentHop := do
  let current ← CurrentHop.locate view.records
  r.checkLifetime current now
  current.authenticate r.key seed
  return current

/-- Processes a path: what is done with the packet, and the path afterwards. -/
def handleView (r : Router) (view : PathView) (seed : Option PeeringSeed) (now : Instant) :
    Except PathFault Outcome × PathView :=
  match r.acceptHop view seed now with
  | .error fault => (.error fault, view)
  | .ok current =>
    if view.header.isLast then (.ok .delivered, view)
    else
      match view.advance with
      -- an accepted path that is not at its last hop can be moved on
      | (.error fault, after) => (.error fault, after)
      | (.ok next, after) =>
        (.ok (.forwarded (next.currentInfo.toNat ≠ current.segment)), after)

/-- Processes the path at the front of a packet: what is done with the packet, and its bytes
afterwards. -/
def handle (r : Router) (b : Bytes) (seed : Option PeeringSeed) (now : Instant) :
    Except PathFault Outcome × Bytes :=
  match PathView.ofBytes b with
  | .error cause => (.error (.malformed cause), b)
  | .ok (view, rest) =>
    let (result, after) := r.handleView view seed now
    (result, after.bytes ++ rest)

end Router

end SourceRoute
