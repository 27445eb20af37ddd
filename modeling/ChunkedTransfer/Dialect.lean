import ChunkedTransfer.Bytes

/-!
# Dialects

A decoder is run in one of two dialects. The tolerant one also takes a bare line feed as the end of a line, and
Latin-1 text in the value of a trailer field.
-/

namespace ChunkedTransfer

inductive Dialect
  | strict
  | tolerant
  deriving DecidableEq, Repr, Inhabited

namespace Dialect

/-- Whether a line feed ends a line that has no carriage return before it. -/
def allowsBareLineFeed : Dialect → Bool
  | strict => false
  | tolerant => true

/-- The bytes of a trailer field value: tab and printable ASCII, and in the tolerant dialect the upper part of
Latin-1 without its control characters. -/
def isFieldValueByte (δ : Dialect) (b : UInt8) : Bool :=
  b == 9 || (32 ≤ b && b ≤ 126) ||
    match δ with
    | strict => false
    | tolerant => 160 ≤ b

end Dialect

end ChunkedTransfer
