import ChunkedTransfer.Dialect
import ChunkedTransfer.Parser

/-!
# Trailer fields

A trailer field is a token, a colon, blanks and a value. Blanks before the value do not belong to it, blanks after
it do, and the value may hold further colons.
-/

namespace ChunkedTransfer

structure TrailerField where
  key : Bytes
  value : Bytes
  deriving DecidableEq, Repr, Inhabited

namespace TrailerField

/-- Letters, digits and ``! # $ % & ' * + - . ^ _ ` | ~``. -/
def isTokenByte (b : UInt8) : Bool :=
  (48 ≤ b && b ≤ 57) || (65 ≤ b && b ≤ 90) || (97 ≤ b && b ≤ 122) ||
    [33, 35, 36, 37, 38, 39, 42, 43, 45, 46, 94, 95, 96, 124, 126].contains b

def colon : UInt8 := 58

/-- Reads a trailer line given without its terminator. -/
def parser (δ : Dialect) : Parser TrailerField := do
  let key ← Parser.run1 isTokenByte .tokenByte
  Parser.byte colon
  let _ ← Parser.run isBlank
  let value ← Parser.run δ.isFieldValueByte
  Parser.lineEnd
  return ⟨key, value⟩

end TrailerField

end ChunkedTransfer
