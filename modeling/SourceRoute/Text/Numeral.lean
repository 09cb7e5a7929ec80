import SourceRoute.Text.Hex

/-!
# Numerals

A numeral is one or more digits, leading zeros allowed, after an optional plus sign.  The radix is
at most 16; letter digits may be of either case.  Numbers are printed by `Nat.toDigits`, without a
sign and without leading zeros, so every printed number is a numeral.
-/

namespace SourceRoute.Text.Numeral

/-- The value of a digit in the given radix. -/
def digit? (radix : Nat) (c : Char) : Option Nat := (Hex.digitValue? c).filter (· < radix)

/-- The value of a row of digits, read after digits worth `acc`. -/
def value? (radix : Nat) : List Char → Nat → Option Nat
  | [], acc => some acc
  | c :: cs, acc => (digit? radix c).bind fun d => value? radix cs (radix * acc + d)

/-- The text without its leading plus sign. -/
def unsigned : List Char → List Char
  | '+' :: cs => cs
  | cs => cs

/-- The value of a numeral. -/
def read? (radix : Nat) (text : List Char) : Option Nat :=
  if (unsigned text).isEmpty then none else value? radix (unsigned text) 0

/-- The value of a numeral that is at most `bound`. -/
def readUpTo? (radix bound : Nat) (text : List Char) : Option Nat :=
  (read? radix text).filter (· ≤ bound)

/-- The decimal text of a number. -/
def decimal (n : Nat) : List Char := Nat.toDigits 10 n

/-- The lower-case hexadecimal text of a number. -/
def hex (n : Nat) : List Char := Nat.toDigits 16 n

end SourceRoute.Text.Numeral
