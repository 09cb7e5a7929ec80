import SourceRoute.Bytes

/-!
# Hexadecimal text of bytes

Each byte is two digits, the high half first.  `encode` writes lower case, `encodeUpper` upper
case, and `decode?` reads either.
-/

namespace SourceRoute.Text.Hex

/-- The two lower-case digits of a byte. -/
def ofByte (b : UInt8) : List Char := [Nat.digitChar (b.toNat / 16), Nat.digitChar (b.toNat % 16)]

/-- The lower-case hexadecimal text of a byte string. -/
def encode (b : Bytes) : String := String.ofList (b.flatMap ofByte)

/-- The upper-case hexadecimal text of a byte string. -/
def encodeUpper (b : Bytes) : String := String.ofList ((b.flatMap ofByte).map Char.toUpper)

/-- The value of one hexadecimal digit of either case. -/
def digitValue? (c : Char) : Option Nat :=
  if '0' ≤ c ∧ c ≤ '9' then some (c.toNat - 48)
  else if 'a' ≤ c ∧ c ≤ 'f' then some (c.toNat - 87)
  else if 'A' ≤ c ∧ c ≤ 'F' then some (c.toNat - 55)
  else none

/-- The byte string that pairs of digits write.  An odd number of characters, or a character that
is no digit, is refused. -/
def decode? : List Char → Option Bytes
  | [] => some []
  | [_] => none
  | high :: low :: rest =>
    match digitValue? high, digitValue? low, decode? rest with
    | some h, some l, some tail => some (UInt8.ofNat (16 * h + l) :: tail)
    | _, _, _ => none

end SourceRoute.Text.Hex
