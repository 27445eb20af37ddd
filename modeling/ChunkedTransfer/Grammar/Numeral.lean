import Mathlib.Algebra.Group.Nat.Defs
import ChunkedTransfer.Bytes

/-!
# Hexadecimal numerals

A numeral is a row of digits. Each digit is counted with the power of sixteen that belongs to its place, whatever
the length of the row.
-/

namespace ChunkedTransfer.Grammar

/-- The bytes that write each of the sixteen digits. -/
def hexSpellings : List Bytes :=
  [[48], [49], [50], [51], [52], [53], [54], [55], [56], [57],
   [65, 97], [66, 98], [67, 99], [68, 100], [69, 101], [70, 102]]

/-- The digit that a byte writes. -/
def hexDigit? (b : UInt8) : Option Nat := hexSpellings.findIdx? (·.contains b)

/-- Not empty, and of digits alone. -/
def IsNumeral (ds : Bytes) : Prop := ds ≠ [] ∧ ∀ b ∈ ds, (hexDigit? b).isSome = true

instance (ds : Bytes) : Decidable (IsNumeral ds) := inferInstanceAs (Decidable (_ ∧ _))

/-- The value of a numeral. -/
def numeralValue : Bytes → Nat
  | [] => 0
  | b :: ds => (hexDigit? b).getD 0 * 16 ^ ds.length + numeralValue ds

end ChunkedTransfer.Grammar
