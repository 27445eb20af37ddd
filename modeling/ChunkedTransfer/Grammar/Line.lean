import ChunkedTransfer.Dialect
import ChunkedTransfer.Grammar.Numeral

/-!
# The lines of a body

What the lines of a body look like, without the bytes that end them:

* a size line is blanks, a numeral, blanks, and nothing more or an extension after a semicolon;
* a trailer field is a token, a colon, blanks and a value.

A line is sent with one of the line ends of the dialect behind it.
-/

namespace ChunkedTransfer.Grammar

def AllBlank (bs : Bytes) : Prop := ∀ b ∈ bs, b = 32 ∨ b = 9

instance (bs : Bytes) : Decidable (AllBlank bs) := inferInstanceAs (Decidable (∀ b ∈ bs, _))

/-- A size line and the numeral in it. -/
inductive IsSizeLine : Bytes → Bytes → Prop
  | plain {before numeral after : Bytes} (hb : AllBlank before) (hn : IsNumeral numeral) (ha : AllBlank after) :
      IsSizeLine (before ++ numeral ++ after) numeral
  | extended {before numeral after extension : Bytes} (hb : AllBlank before) (hn : IsNumeral numeral)
      (ha : AllBlank after) : IsSizeLine (before ++ numeral ++ after ++ 59 :: extension) numeral

/-- Letters, digits and the marks that a token may hold. -/
def IsTokenByte (b : UInt8) : Prop :=
  (48 ≤ b ∧ b ≤ 57) ∨ (65 ≤ b ∧ b ≤ 90) ∨ (97 ≤ b ∧ b ≤ 122) ∨
    b ∈ [33, 35, 36, 37, 38, 39, 42, 43, 45, 46, 94, 95, 96, 124, 126]

def IsToken (bs : Bytes) : Prop := bs ≠ [] ∧ ∀ b ∈ bs, IsTokenByte b

/-- Tab and printable ASCII, and in the tolerant dialect the upper part of Latin-1. -/
def IsValueByte (δ : Dialect) (b : UInt8) : Prop :=
  b = 9 ∨ (32 ≤ b ∧ b ≤ 126) ∨ (δ = .tolerant ∧ 160 ≤ b)

/-- A trailer line with its key and its value. Blanks belong to the value only behind another byte of it. -/
inductive IsTrailerLine (δ : Dialect) : Bytes → Bytes → Bytes → Prop
  | intro {key blanks value : Bytes} (hk : IsToken key) (hb : AllBlank blanks)
      (hv : ∀ b ∈ value, IsValueByte δ b) (hh : ∀ b ∈ value.head?, ¬ (b = 32 ∨ b = 9)) :
      IsTrailerLine δ (key ++ 58 :: blanks ++ value) key value

/-- The ways to end a line. -/
inductive LineEnd : Dialect → Bytes → Prop
  | full (δ : Dialect) : LineEnd δ [carriageReturn, lineFeed]
  | bare : LineEnd .tolerant [lineFeed]

/-- The bytes of a row of lines, each with a line end. -/
inductive Sent (δ : Dialect) : List Bytes → Bytes → Prop
  | nil : Sent δ [] []
  | cons {line lineEnd rest : Bytes} {lines : List Bytes} (he : LineEnd δ lineEnd) (hr : Sent δ lines rest) :
      Sent δ (line :: lines) (line ++ lineEnd ++ rest)

end ChunkedTransfer.Grammar
