import SourceRoute.Crypto.Aes

/-!
# AES-CMAC

The message authentication code made from the block cipher.  The message is cut into blocks of
sixteen bytes that are added to the running value and encrypted one after another; the last block is
masked with one of two subkeys, depending on whether it had to be padded.
-/

namespace SourceRoute.Crypto.Cmac

open Aes (Block)

/-- The block whose bytes are the first sixteen of a string, zeros after its end. -/
def blockOf (b : Bytes) : Block := Vector.ofFn fun i => b.getD i 0

/-- The product with `x` in the field of 128-bit words that the subkeys live in. -/
def double (x : BitVec 128) : BitVec 128 := (x <<< 1) ^^^ (if x.msb then 0x87#128 else 0#128)

/-- The subkey for a last block that is full, as a word.  The other subkey is its double. -/
def subkey (key : Block) : BitVec 128 :=
  double (Bytes.toWord 128 (Aes.encrypt key (Vector.replicate 16 0)).toList)

/-- The bytes of a word as a block. -/
def blockOfWord (x : BitVec 128) : Block := blockOf (Bytes.ofWord 16 x)

/-- The last block of a message of at most sixteen bytes, padded if short and masked. -/
def lastBlock (key : Block) (rest : Bytes) : Block :=
  if rest.length = 16 then Aes.xor (blockOf rest) (blockOfWord (subkey key))
  else Aes.xor (blockOf (rest ++ [0x80])) (blockOfWord (double (subkey key)))

/-- The running value after the rest of the message. -/
def absorb (key : Block) (rest : Bytes) (acc : Block) : Block :=
  if rest.length ≤ 16 then Aes.encrypt key (Aes.xor (lastBlock key rest) acc)
  else absorb key (rest.drop 16) (Aes.encrypt key (Aes.xor (blockOf rest) acc))
termination_by rest.length
decreasing_by simp only [List.length_drop]; omega

/-- The sixteen-byte code of a message. -/
def mac (key : Block) (message : Bytes) : Block := absorb key message (Vector.replicate 16 0)

end SourceRoute.Crypto.Cmac
