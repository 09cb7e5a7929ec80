import SourceRoute.Bytes
import SourceRoute.Fault.Encoding

/-!
# Encoding into buffers

A type with a wire form says how long the form is, which values have none, and how the form is
written over the front of a buffer.  `encodeInto` checks both conditions before it writes, so a
failure leaves the buffer as it was.
-/

namespace SourceRoute

/-- Types whose values are written onto the wire. -/
class Wire (α : Type) where
  /-- The length of the wire form. -/
  size : α → Nat
  /-- Why the value has no wire form, if it has none. -/
  fault? : α → Option StructureFault
  /-- The buffer with the wire form over its first bytes.  It is called on values that have a wire
  form and buffers that are long enough. -/
  write : α → Bytes → Bytes

namespace Wire

variable {α : Type} [Wire α]

/-- Writes a value over the front of a buffer and tells how many bytes it took. -/
def encodeInto (a : α) (b : Bytes) : Except EncodeFault Nat × Bytes :=
  match fault? a with
  | some fault => (.error (.noWireForm fault), b)
  | none =>
    if b.length < size a then (.error (.noRoom (size a)), b)
    else (.ok (size a), write a b)

/-- The wire form of a value, in a buffer of its own. -/
def encode (a : α) : Except EncodeFault Bytes :=
  match encodeInto a (List.replicate (size a) 0) with
  | (.ok _, b) => .ok b
  | (.error fault, _) => .error fault

end Wire

end SourceRoute
