import ChunkedTransfer.FramingError
import ChunkedTransfer.Parser
import ChunkedTransfer.Text.Utf8

/-!
# Chunk-size lines

A chunk-size line is blanks, one or more hexadecimal digits, blanks, and then either its end or a semicolon that
starts an extension. The extension is skipped whatever it holds.

The value of the digits is a chunk size as long as it fits in 64 bits. Which error a line has is decided in the
order in which it is read: a line that is empty, then its form, then its value.
-/

namespace ChunkedTransfer

/-- The value of a hexadecimal digit of either case. -/
def hexDigitValue? (b : UInt8) : Option Nat :=
  if 48 ≤ b ∧ b ≤ 57 then some (b.toNat - 48)
  else if 65 ≤ b ∧ b ≤ 70 then some (b.toNat - 55)
  else if 97 ≤ b ∧ b ≤ 102 then some (b.toNat - 87)
  else none

def isHexDigit (b : UInt8) : Bool := (hexDigitValue? b).isSome

namespace SizeLine

def semicolon : UInt8 := 59

/-- Reads the digits of a size line given without its terminator. -/
def digits : Parser Bytes := do
  let _ ← Parser.run isBlank
  let ds ← Parser.run1 isHexDigit .hexDigit
  let _ ← Parser.run isBlank
  Parser.orElse Parser.lineEnd (do Parser.byte semicolon; let _ ← Parser.rest)
  return ds

/-- Appends a digit to a size, as long as the result fits in 64 bits. -/
def pushDigit? (size : UInt64) (digit : Nat) : Option UInt64 :=
  if h : size.toNat * 16 + digit < UInt64.size then some (UInt64.ofNatLT _ h) else none

/-- The chunk size written with the given digits, if they are digits and their value fits in 64 bits. -/
def sizeOfDigits? (ds : Bytes) : Option UInt64 :=
  ds.foldlM (fun size b => (hexDigitValue? b).bind (pushDigit? size)) 0

/-- The chunk size of a size line given without its terminator. -/
def size (line : Bytes) : Except FramingError UInt64 :=
  if line.isEmpty then .error .emptySizeLine
  else
    match digits line with
    | .error _ => .error (.invalidSize (Text.Utf8.lossy line))
    | .ok (ds, _) =>
      match sizeOfDigits? ds with
      | none => .error (.sizeOverflow (Text.Utf8.lossy line))
      | some size => .ok size

end SizeLine

end ChunkedTransfer
