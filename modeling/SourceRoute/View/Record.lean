import SourceRoute.Fault.Malformed
import SourceRoute.Field.Hop
import SourceRoute.Field.Info

/-!
# Single records in place

A record that is looked at in place is its bytes.  Each part can be read and set by itself, without
touching the others; in particular the reserved byte of an info field survives.
-/

namespace SourceRoute

/-! ## Info fields -/

/-- The eight bytes of an info field. -/
structure InfoView where
  bytes : Bytes
deriving DecidableEq

namespace InfoView

/-- The info field at the front of a buffer, and the bytes behind it. -/
def ofBytes (b : Bytes) : Except Malformed (InfoView × Bytes) :=
  match b.splitAt? InfoField.size with
  | some (front, rest) => .ok (⟨front⟩, rest)
  | none => .error (.tooShort .infoField InfoField.size b.length)

/-- The info field that the bytes hold. -/
def field (v : InfoView) : InfoField := InfoField.read v.bytes

/-- A change to one part of an info field. -/
inductive Edit where
  | flags (flags : InfoFlags)
  | segmentId (segmentId : UInt16)
  | timestamp (timestamp : UInt32)

/-- The info field after a change. -/
def edit (v : InfoView) : Edit → InfoView
  | .flags flags => ⟨InfoField.Bits.flags.set flags.bits.toBitVec v.bytes⟩
  | .segmentId segmentId => ⟨InfoField.Bits.segmentId.set segmentId.toBitVec v.bytes⟩
  | .timestamp timestamp => ⟨InfoField.Bits.timestamp.set timestamp.toBitVec v.bytes⟩

/-- The info field of the same segment visited the other way. -/
def reversed (v : InfoView) : InfoView := v.edit (.flags v.field.flags.flipConsDir)

end InfoView

/-! ## Hop fields -/

/-- The twelve bytes of a hop field. -/
structure HopView where
  bytes : Bytes
deriving DecidableEq

namespace HopView

/-- The hop field at the front of a buffer, and the bytes behind it. -/
def ofBytes (b : Bytes) : Except Malformed (HopView × Bytes) :=
  match b.splitAt? HopField.size with
  | some (front, rest) => .ok (⟨front⟩, rest)
  | none => .error (.tooShort .hopField HopField.size b.length)

/-- The hop field that the bytes hold. -/
def field (v : HopView) : HopField := HopField.read v.bytes

/-- A change to one part of a hop field. -/
inductive Edit where
  | flags (flags : HopFlags)
  | expTime (expTime : UInt8)
  | ingress (ingress : UInt16)
  | egress (egress : UInt16)
  | mac (mac : Mac)

/-- The hop field after a change. -/
def edit (v : HopView) : Edit → HopView
  | .flags flags => ⟨HopField.Bits.flags.set flags.bits.toBitVec v.bytes⟩
  | .expTime expTime => ⟨HopField.Bits.expTime.set expTime.toBitVec v.bytes⟩
  | .ingress ingress => ⟨HopField.Bits.ingress.set ingress.toBitVec v.bytes⟩
  | .egress egress => ⟨HopField.Bits.egress.set egress.toBitVec v.bytes⟩
  | .mac mac => ⟨HopField.Bits.mac.set mac.value v.bytes⟩

/-- The hop field of the same AS crossed the other way. -/
def reversed (v : HopView) : HopView :=
  let field := v.field
  ((v.edit (.ingress field.egress)).edit (.egress field.ingress)).edit
    (.flags field.flags.swapAlerts)

end HopView

end SourceRoute
