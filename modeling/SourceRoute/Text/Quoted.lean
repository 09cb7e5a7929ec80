import SourceRoute.Text.Combining
import SourceRoute.Text.Invisible
import SourceRoute.Text.Numeral

/-!
# Quoted text

Messages quote the text they complain about.  A quote and a backslash get a backslash, the usual
control characters have short names, and every other character that cannot be seen by itself is
written by its code point.  Two sets of code points cannot be seen by themselves: those that show
nothing, and those that join the character before them.
-/

namespace SourceRoute.Text.Quoted

/-- Whether a character stands for itself inside quotes. -/
def isPlain (c : Char) : Bool :=
  !CodePoints.invisible.contains c && !CodePoints.combining.contains c

/-- The text of one character inside quotes. -/
def escape (c : Char) : List Char :=
  if c = '"' then ['\\', '"']
  else if c = '\\' then ['\\', '\\']
  else if c = '\t' then ['\\', 't']
  else if c = '\n' then ['\\', 'n']
  else if c = '\r' then ['\\', 'r']
  else if c.toNat = 0 then ['\\', '0']
  else if isPlain c then [c]
  else ['\\', 'u', '\x7b'] ++ Numeral.hex c.toNat ++ ['\x7d']

/-- The text between quotes, each character escaped as needed. -/
def encode (text : String) : String :=
  String.ofList (['"'] ++ text.toList.flatMap escape ++ ['"'])

end SourceRoute.Text.Quoted
