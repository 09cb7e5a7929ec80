import SourceRoute.Bytes
import SourceRoute.Text.Hex

/-!
# Truncated authentication codes and peering seeds

Both are words of 48 bits, six bytes on the wire.  The zero code stands before the first hop of a
chain, and the zero seed stands for no seed.
-/

namespace SourceRoute

/-- The authentication code of a hop field, truncated to 48 bits. -/
structure Mac where
  value : BitVec 48
deriving DecidableEq

namespace Mac

/-- The code that the first hop of a chain is chained to. -/
def zero : Mac := ⟨0#48⟩

/-- The six bytes of the code. -/
def toBytes (m : Mac) : Bytes := Bytes.ofWord 6 m.value

/-- The code that six bytes write. -/
def ofBytes (b : Bytes) : Mac := ⟨Bytes.toWord 48 b⟩

/-- The bytes in hexadecimal, separated by colons. -/
def text (m : Mac) : String :=
  String.ofList (List.intercalate [':'] (m.toBytes.map Text.Hex.ofByte))

end Mac

/-- The value that is mixed into the codes of the two hops next to a peering link. -/
structure PeeringSeed where
  value : BitVec 48
deriving DecidableEq

namespace PeeringSeed

/-- The seed that counts as none. -/
def zero : PeeringSeed := ⟨0#48⟩

/-- The six bytes of the seed. -/
def toBytes (s : PeeringSeed) : Bytes := Bytes.ofWord 6 s.value

/-- The seed that six bytes write. -/
def ofBytes (b : Bytes) : PeeringSeed := ⟨Bytes.toWord 48 b⟩

end PeeringSeed

end SourceRoute
