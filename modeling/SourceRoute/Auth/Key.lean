import SourceRoute.Crypto.Cmac
import SourceRoute.Field.Mac

/-!
# Forwarding keys

Each AS has a secret key with which it authenticates its own hop fields.  The text of a key never
shows the key.
-/

namespace SourceRoute

/-- The secret key of an AS. -/
structure ForwardingKey where
  block : Crypto.Aes.Block
deriving DecidableEq

namespace ForwardingKey

/-- The key whose sixteen bytes are given. -/
def ofBytes (b : Bytes) : ForwardingKey := ⟨Crypto.Cmac.blockOf b⟩

/-- The key of zeros. -/
def zero : ForwardingKey := ⟨Vector.replicate 16 0⟩

/-- The truncated code of a message under the key: the first six bytes of its AES-CMAC. -/
def authenticate (key : ForwardingKey) (message : Bytes) : Mac :=
  Mac.ofBytes ((Crypto.Cmac.mac key.block message).toList.take 6)

/-- The text of a key. -/
def text (_ : ForwardingKey) : String := "ForwardingKey(..)"

/-- The text of a key that has been prepared for use. -/
def preparedText (_ : ForwardingKey) : String := "HopAuthenticator \x7b .. \x7d"

end ForwardingKey

end SourceRoute
