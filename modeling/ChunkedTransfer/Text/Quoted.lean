import ChunkedTransfer.Text.ExtendingMark
import ChunkedTransfer.Text.Ignorable
import ChunkedTransfer.Text.Unprintable

/-!
# Quoted text

Text is shown between double quotes so that every character of it can be told apart: quotes, backslashes and the
common controls have short escapes, and a character that cannot be seen by itself is given by its code point.
-/

namespace ChunkedTransfer.Text

/-- Whether a character is seen when it is printed, and in a place of its own. -/
def isVisible (c : Char) : Bool :=
  !inRanges unprintableRanges c && !inRanges ignorableRanges c && !inRanges extendingMarkRanges c

namespace Quoted

/-- One character between quotes. -/
def escape (c : Char) : List Char :=
  if c = '\x00' then ['\\', '0']
  else if c = '\t' then ['\\', 't']
  else if c = '\r' then ['\\', 'r']
  else if c = '\n' then ['\\', 'n']
  else if c = '"' then ['\\', '"']
  else if c = '\\' then ['\\', '\\']
  else if isVisible c then [c]
  else ['\\', 'u', '\x7b'] ++ Nat.toDigits 16 c.toNat ++ ['\x7d']

/-- The text between double quotes, with its escapes. -/
def encode (s : String) : String :=
  String.ofList ('"' :: s.toList.flatMap escape ++ ['"'])

end Quoted

end ChunkedTransfer.Text
