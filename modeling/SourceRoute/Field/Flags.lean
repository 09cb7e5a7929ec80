/-!
# Flags of info and hop fields

Both flag bytes use two bits.  The six other bits have no meaning but are kept as they are, so a
path that is read and written again does not lose them.
-/

namespace SourceRoute

/-! ## Info fields -/

/-- The flag byte of an info field. -/
structure InfoFlags where
  bits : UInt8
deriving DecidableEq

namespace InfoFlags

/-- The bit of segments whose hops are visited in construction order. -/
def consDirBit : UInt8 := 0x01

/-- The bit of segments that begin or end at a peering link. -/
def peeringBit : UInt8 := 0x02

/-- No flag set: a segment that is visited against construction order. -/
def none : InfoFlags := ⟨0⟩

/-- Only the bit of construction order set. -/
def alongConstruction : InfoFlags := ⟨consDirBit⟩

/-- Whether the hops of the segment are visited in construction order. -/
def consDir (f : InfoFlags) : Bool := f.bits &&& consDirBit ≠ 0

/-- Whether the segment is part of a peering path. -/
def peering (f : InfoFlags) : Bool := f.bits &&& peeringBit ≠ 0

/-- The flags of the segment visited the other way. -/
def flipConsDir (f : InfoFlags) : InfoFlags := ⟨f.bits ^^^ consDirBit⟩

/-- The flags with the peering bit set. -/
def withPeering (f : InfoFlags) : InfoFlags := ⟨f.bits ||| peeringBit⟩

end InfoFlags

/-! ## Hop fields -/

/-- The flag byte of a hop field. -/
structure HopFlags where
  bits : UInt8
deriving DecidableEq

namespace HopFlags

/-- The bit that makes the router at the first interface look at the payload. -/
def ingressAlertBit : UInt8 := 0x01

/-- The bit that makes the router at the second interface look at the payload. -/
def egressAlertBit : UInt8 := 0x02

/-- No flag set. -/
def none : HopFlags := ⟨0⟩

/-- Whether the router at the first interface is alerted. -/
def ingressAlert (f : HopFlags) : Bool := f.bits &&& ingressAlertBit ≠ 0

/-- Whether the router at the second interface is alerted. -/
def egressAlert (f : HopFlags) : Bool := f.bits &&& egressAlertBit ≠ 0

/-- The flags of a hop whose interfaces change places: each alert stays with its interface, and
the bits without meaning stay where they are. -/
def swapAlerts (f : HopFlags) : HopFlags :=
  ⟨(f.bits &&& ~~~(ingressAlertBit ||| egressAlertBit))
    ||| (if f.ingressAlert then egressAlertBit else 0)
    ||| (if f.egressAlert then ingressAlertBit else 0)⟩

end HopFlags

end SourceRoute
