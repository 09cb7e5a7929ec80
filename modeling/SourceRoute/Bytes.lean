import SourceRoute.Span

/-!
# Byte strings

A byte string is a list of bytes.  Words are written most significant byte first, so `ofWord` and
`toWord` agree with reading the string as a base-256 numeral.  `slice?` takes a part out and
`splice` puts a part back; `writeRun` writes records of one size side by side.
-/

namespace SourceRoute

/-- A string of bytes. -/
abbrev Bytes := List UInt8

namespace Bytes

/-- The lowest `n` bytes of a word, most significant byte first. -/
def ofWord {w : Nat} : Nat → BitVec w → Bytes
  | 0, _ => []
  | n + 1, x => ⟨(x >>> (8 * n)).setWidth 8⟩ :: ofWord n x

/-- The word that a byte string writes, most significant byte first.  Only the last bytes that fit
the word remain. -/
def toWord (w : Nat) (b : Bytes) : BitVec w :=
  b.foldl (fun acc byte => acc <<< 8 ||| byte.toBitVec.setWidth w) 0#w

/-- The bytes of a span, if the span lies inside the string. -/
def slice? (b : Bytes) (s : Span) : Option Bytes :=
  if s.start ≤ s.stop ∧ s.stop ≤ b.length then some ((b.drop s.start).take s.size) else none

/-- The string with `part` written over its bytes from position `start` on. -/
def splice (b : Bytes) (start : Nat) (part : Bytes) : Bytes :=
  b.take start ++ part ++ b.drop (start + part.length)

/-- The first `n` bytes and the rest, if there are that many. -/
def splitAt? (b : Bytes) (n : Nat) : Option (Bytes × Bytes) :=
  if n ≤ b.length then some (b.take n, b.drop n) else none

/-- Writes each record over the next `size` bytes.  The bytes behind the last record stay. -/
def writeRun {α : Type} (size : Nat) (write : α → Bytes → Bytes) : List α → Bytes → Bytes
  | [], b => b
  | a :: as, b => write a (b.take size) ++ writeRun size write as (b.drop size)

@[simp] theorem length_ofWord {w : Nat} (n : Nat) (x : BitVec w) : (ofWord n x).length = n := by
  induction n with
  | zero => rfl
  | succ n ih => simp [ofWord, ih]

end Bytes

end SourceRoute
