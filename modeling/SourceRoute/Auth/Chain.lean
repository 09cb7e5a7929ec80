import SourceRoute.Auth.Block
import SourceRoute.Fault.Building
import SourceRoute.Path.Basic

/-!
# Chains of authentication codes

The codes of a segment form a chain in construction order: each is computed over the code before it.
A segment is cut into slots, a hop with the key and the seed that belong to it; the slots are put
into construction order, worked through from the zero code on, and put back.
-/

namespace SourceRoute

/-- The seeds of the two outer hops of a segment, in stored order. -/
structure OuterSeeds where
  first : Option PeeringSeed
  last : Option PeeringSeed
deriving DecidableEq

namespace OuterSeeds

/-- No seeds. -/
def none : OuterSeeds := ⟨.none, .none⟩

/-- The seed of the hop at an index of a segment.  A hop that is both first and last takes the last
seed if there is one. -/
def seedAt (seeds : OuterSeeds) (index size : Nat) : Option PeeringSeed :=
  if index + 1 = size ∧ seeds.last.isSome then seeds.last
  else if index = 0 then seeds.first
  else .none

end OuterSeeds

/-- A hop of a segment with its stored index, its key and its seed. -/
structure ChainSlot where
  index : Nat
  hop : HopField
  key : ForwardingKey
  seed : Option PeeringSeed

namespace ChainSlot

/-- The code of the slot's hop after a given code. -/
def expected (slot : ChainSlot) (info : InfoField) (chain : Mac) : Mac :=
  slot.key.hopMac info slot.hop chain slot.seed

/-- The hops of slots in construction order, each with the code that belongs to it. -/
def sign (info : InfoField) : Mac → List ChainSlot → List HopField
  | _, [] => []
  | chain, slot :: slots =>
    let mac := slot.expected info chain
    { slot.hop with mac } :: sign info mac slots

/-- The stored index of the first slot, in construction order, whose hop has the wrong code. -/
def firstBad? (info : InfoField) : Mac → List ChainSlot → Option Nat
  | _, [] => none
  | chain, slot :: slots =>
    -- as long as all codes are right, the chain goes on with the one that the hop carries
    if slot.expected info chain = slot.hop.mac then firstBad? info slot.hop.mac slots
    else some slot.index

end ChainSlot

namespace Segment

/-- The slots of a segment, in stored order. -/
def slots (s : Segment) (keys : List ForwardingKey) (seeds : OuterSeeds) : List ChainSlot :=
  (s.hops.zip keys).mapIdx fun index (hop, key) =>
    ⟨index, hop, key, seeds.seedAt index s.size⟩

/-- The segment with all codes computed, for as many keys as hops. -/
def signed (s : Segment) (keys : List ForwardingKey) (seeds : OuterSeeds) : Segment :=
  let consDir := s.info.flags.consDir
  { s with
    hops := orient consDir (ChainSlot.sign s.info Mac.zero (orient consDir (s.slots keys seeds))) }

/-- The segment with all codes computed.  The number of keys has to be that of the hops; the fault
counts the segment as the first one. -/
def signWith (s : Segment) (keys : List ForwardingKey) (seeds : OuterSeeds) :
    Except BuildFault Segment :=
  if keys.length = s.size then .ok (s.signed keys seeds)
  else .error (.keyCount 0 s.size keys.length)

/-- The stored index of the first hop, in construction order, that has the wrong code.  If the
numbers of keys and hops differ, it is the first index that lacks a hop or a key. -/
def firstBadMac? (s : Segment) (keys : List ForwardingKey) (seeds : OuterSeeds) : Option Nat :=
  if keys.length = s.size then
    ChainSlot.firstBad? s.info Mac.zero (orient s.info.flags.consDir (s.slots keys seeds))
  else some (min keys.length s.size)

end Segment

end SourceRoute
