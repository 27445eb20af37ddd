/-!
# Ranges of characters

A property of characters is given as the list of the ranges of code points that have it. The lists are those of
Unicode 17.0.
-/

namespace ChunkedTransfer.Text

/-- A range of code points, both ends included. -/
structure CharRange where
  low : Nat
  high : Nat
  deriving DecidableEq, Repr

/-- Whether a character lies in one of the ranges. -/
def inRanges (ranges : List CharRange) (c : Char) : Bool :=
  ranges.any fun r => r.low ≤ c.toNat && c.toNat ≤ r.high

end ChunkedTransfer.Text
