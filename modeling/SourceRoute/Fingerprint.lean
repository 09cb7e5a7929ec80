import SourceRoute.Crypto.Sha256
import SourceRoute.IsdAs
import SourceRoute.Link
import SourceRoute.Text.Hex

/-!
# Fingerprints of routes

Interface numbers are unique within an AS, so the first AS and the links determine every AS on the
way.  The fingerprint of a route is the SHA-256 hash of the two; codes, lifetimes and the position
do not enter it.
-/

namespace SourceRoute

/-- The fingerprint of a route. -/
structure Fingerprint where
  /-- The 32 bytes of the hash. -/
  bytes : Bytes
deriving DecidableEq

namespace Fingerprint

/-! ## Computing -/

/-- The four bytes of a link. -/
def linkBytes (link : Link) : Bytes :=
  Bytes.ofWord 2 link.egress.toBitVec ++ Bytes.ofWord 2 link.ingress.toBitVec

/-- What is hashed: the first AS, then the links. -/
def message (source : IsdAs) (links : List Link) : Bytes :=
  Bytes.ofWord 8 source.raw.toBitVec ++ links.flatMap linkBytes

/-- The fingerprint of the route that leaves an AS along some links. -/
def ofLinks (source : IsdAs) (links : List Link) : Fingerprint :=
  ⟨Crypto.Sha256.hash (message source links)⟩

/-! ## Text -/

/-- The number of bytes of the short text. -/
def shownBytes : Nat := 8

/-- The short text: the first eight bytes in lower case. -/
def short (d : Fingerprint) : String := Text.Hex.encode (d.bytes.take shownBytes)

/-- The short text in upper case. -/
def shortUpper (d : Fingerprint) : String := Text.Hex.encodeUpper (d.bytes.take shownBytes)

/-- The full text: all bytes in lower case. -/
def full (d : Fingerprint) : String := Text.Hex.encode d.bytes

/-- A hexadecimal text marked as such. -/
def marked (text : String) : String := "0x" ++ text

end Fingerprint

/-- The fingerprint of a path that leaves the given AS. -/
def RecordSource.fingerprint (source : RecordSource) (origin : IsdAs) : Fingerprint :=
  Fingerprint.ofLinks origin source.links

end SourceRoute
