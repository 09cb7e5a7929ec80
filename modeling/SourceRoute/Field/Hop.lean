import SourceRoute.Bits.Access
import SourceRoute.Field.Flags
import SourceRoute.Field.Mac
import SourceRoute.Instant
import SourceRoute.Wire

/-!
# Hop fields

A hop field of twelve bytes lets a packet cross one AS.  It names the interfaces where the packet
enters and leaves, for how long this is allowed, and the code that proves it.
-/

namespace SourceRoute

/-- The permission to cross one AS. -/
structure HopField where
  flags : HopFlags
  /-- The lifetime, in units past the first. -/
  expTime : UInt8
  /-- The first interface, zero at the start of a segment. -/
  ingress : UInt16
  /-- The second interface, zero at the end of a segment. -/
  egress : UInt16
  /-- The code, chained to that of the hop before in construction order. -/
  mac : Mac
deriving DecidableEq

namespace HopField

/-- The length of the wire form. -/
def size : Nat := 12

/-! ## Positions of the parts -/

namespace Bits

/-- The flag byte. -/
def flags : BitRange := .ofWidth 0 8

/-- The lifetime. -/
def expTime : BitRange := .ofWidth 8 8

/-- The first interface. -/
def ingress : BitRange := .ofWidth 16 16

/-- The second interface. -/
def egress : BitRange := .ofWidth 32 16

/-- The authentication code. -/
def mac : BitRange := .ofWidth 48 48

end Bits

/-! ## Reading and writing -/

/-- The hop field in the first twelve bytes of a buffer. -/
def read (b : Bytes) : HopField where
  flags := ⟨⟨Bits.flags.get 8 b⟩⟩
  expTime := ⟨Bits.expTime.get 8 b⟩
  ingress := ⟨Bits.ingress.get 16 b⟩
  egress := ⟨Bits.egress.get 16 b⟩
  mac := ⟨Bits.mac.get 48 b⟩

/-- The buffer with the hop field over its first twelve bytes. -/
def write (h : HopField) (b : Bytes) : Bytes :=
  let b := Bits.flags.set h.flags.bits.toBitVec b
  let b := Bits.expTime.set h.expTime.toBitVec b
  let b := Bits.ingress.set h.ingress.toBitVec b
  let b := Bits.egress.set h.egress.toBitVec b
  Bits.mac.set h.mac.value b

/-- Every hop field has a wire form. -/
instance : Wire HopField where
  size _ := size
  fault? _ := none
  write := write

@[simp] theorem length_write (h : HopField) (b : Bytes) : (h.write b).length = b.length := by
  simp [write]

/-! ## The other way round -/

/-- The hop field of the same AS crossed the other way: the interfaces change places, and each alert
follows its interface. -/
def reversed (h : HopField) : HopField :=
  { h with flags := h.flags.swapAlerts, ingress := h.egress, egress := h.ingress }

/-! ## Lifetime -/

/-- The shortest lifetime, 337.5 seconds, in milliseconds.  It is a 256th of a day. -/
def lifetimeUnit : Nat := 337500

/-- The lifetime of a hop field in milliseconds, one unit for zero and a day for 255. -/
def lifetime (expTime : UInt8) : Nat := (expTime.toNat + 1) * lifetimeUnit

/-- The last point at which the hop field is valid in a segment that was made at `timestamp`. -/
def expiry (h : HopField) (timestamp : UInt32) : Instant :=
  (Instant.ofEpoch timestamp.toNat 0).later (lifetime h.expTime * 1000000)

end HopField

end SourceRoute
