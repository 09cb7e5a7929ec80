import SourceRoute.Text.Fields
import SourceRoute.Text.Numeral
import SourceRoute.Text.Quoted

/-!
# AS identifiers

An identifier is 64 bits: 16 for the isolation domain and 48 for the AS number.  Its text is the
domain in decimal, a dash, and the AS number, in decimal up to 2^32 - 1 and as three groups of
hexadecimal digits above.  Both notations are read for every number.
-/

namespace SourceRoute

/-- The identifier of an AS within its isolation domain. -/
structure IsdAs where
  /-- The domain in the upper 16 bits and the AS number in the lower 48. -/
  raw : UInt64
deriving DecidableEq

/-- A text that is no identifier. -/
inductive AddressFault where
  /-- There is no dash. -/
  | noDash (text : String)
  /-- The text before the dash is no domain. -/
  | badDomain (text : String)
  /-- The text after the dash is no AS number. -/
  | badNumber (text : String)
deriving DecidableEq

namespace AddressFault

/-- The message for people. -/
def message : AddressFault → String
  | noDash text => "missing '-' separator in " ++ Text.Quoted.encode text
  | badDomain text => "invalid ISD " ++ Text.Quoted.encode text
  | badNumber text => "invalid AS number " ++ Text.Quoted.encode text

end AddressFault

namespace IsdAs

/-! ## Parts -/

/-- The bits of the AS number. -/
def asnMask : UInt64 := 0x0000ffffffffffff

/-- The largest AS number that is written in decimal. -/
def maxDecimalAsn : Nat := 0xffffffff

/-- The largest isolation domain. -/
def maxIsd : Nat := 0xffff

/-- The identifier of an AS number in a domain.  Only the low 48 bits of the number count. -/
def ofParts (isd : UInt16) (asn : UInt64) : IsdAs :=
  ⟨(isd.toUInt64 <<< 48) ||| (asn &&& asnMask)⟩

/-- The isolation domain. -/
def isd (a : IsdAs) : UInt16 := (a.raw >>> 48).toUInt16

/-- The AS number. -/
def asn (a : IsdAs) : UInt64 := a.raw &&& asnMask

/-! ## Writing -/

/-- The group of 16 bits of a number that begins at bit `shift`. -/
def group (n shift : Nat) : Nat := (n >>> shift) % 0x10000

/-- The text of an AS number. -/
def asnText (n : Nat) : List Char :=
  if n ≤ maxDecimalAsn then Text.Numeral.decimal n
  else
    Text.Numeral.hex (group n 32) ++ [':'] ++ Text.Numeral.hex (group n 16) ++ [':'] ++
      Text.Numeral.hex (group n 0)

/-- The text of an identifier. -/
def text (a : IsdAs) : List Char :=
  Text.Numeral.decimal a.isd.toNat ++ ['-'] ++ asnText a.asn.toNat

instance : ToString IsdAs := ⟨fun a => String.ofList a.text⟩

/-! ## Reading -/

/-- The value of a group of at most four hexadecimal digits. -/
def readGroup? (text : List Char) : Option Nat :=
  if text.length ≤ 4 then Text.Numeral.read? 16 text else none

/-- The AS number that a text stands for: three groups if it has a colon, else a decimal number. -/
def readAsn? (text : List Char) : Option Nat :=
  if ':' ∈ text then
    match Text.fields ':' text with
    | [high, middle, low] =>
      match readGroup? high, readGroup? middle, readGroup? low with
      | some h, some m, some l => some ((h * 0x10000 + m) * 0x10000 + l)
      | _, _, _ => none
    | _ => none
  else Text.Numeral.readUpTo? 10 maxDecimalAsn text

/-- The identifier that a text stands for.  The text is cut at its first dash, and the domain is
looked at before the AS number. -/
def read (text : List Char) : Except AddressFault IsdAs :=
  match Text.cut? '-' text with
  | none => .error (.noDash (String.ofList text))
  | some (left, right) =>
    match Text.Numeral.readUpTo? 10 maxIsd left with
    | none => .error (.badDomain (String.ofList left))
    | some isd =>
      match readAsn? right with
      | none => .error (.badNumber (String.ofList right))
      | some asn => .ok (ofParts (UInt16.ofNat isd) (UInt64.ofNat asn))

/-- The identifier that a string stands for. -/
def ofString (s : String) : Except AddressFault IsdAs := read s.toList

end IsdAs

end SourceRoute
