import ChunkedTransfer.Bytes

/-!
# UTF-8

Bytes are read as text one sequence at a time. A sequence is a lead byte and the continuation bytes that it asks
for; the admitted range of the first continuation byte depends on the lead, so that overlong forms, surrogates and
values above `0x10ffff` are refused where they start.

Bytes that form no sequence are dropped up to the first one that cannot belong to it, and count as one defect.
-/

namespace ChunkedTransfer.Text

/-- A range of bytes, both ends included. -/
structure ByteRange where
  low : UInt8
  high : UInt8
  deriving DecidableEq, Repr

namespace ByteRange

def contains (r : ByteRange) (b : UInt8) : Bool := r.low ≤ b && b ≤ r.high

/-- The bytes that continue a sequence. -/
def continuation : ByteRange := ⟨0x80, 0xbf⟩

end ByteRange

namespace Utf8

/-- What a lead byte announces: the high bits of the code point, and the bytes that follow. `none` if no sequence
starts with the byte. -/
def lead? (b : UInt8) : Option (Nat × List ByteRange) :=
  let n := b.toNat
  if n < 0x80 then some (n, [])
  else if n < 0xc2 then none
  else if n < 0xe0 then some (n - 0xc0, [.continuation])
  else if n = 0xe0 then some (0, [⟨0xa0, 0xbf⟩, .continuation])
  else if n = 0xed then some (13, [⟨0x80, 0x9f⟩, .continuation])
  else if n < 0xf0 then some (n - 0xe0, [.continuation, .continuation])
  else if n = 0xf0 then some (0, [⟨0x90, 0xbf⟩, .continuation, .continuation])
  else if n < 0xf4 then some (n - 0xf0, [.continuation, .continuation, .continuation])
  else if n = 0xf4 then some (4, [⟨0x80, 0x8f⟩, .continuation, .continuation])
  else none

/-- Reads the bytes that a lead asks for. Stops before the first that is out of its range. -/
def follow : Nat → List ByteRange → Bytes → Option Char × Bytes
  | code, [], s => (some (Char.ofNat code), s)
  | _, _ :: _, [] => (none, [])
  | code, r :: rs, b :: s =>
    if r.contains b then follow (code * 64 + b.toNat % 64) rs s else (none, b :: s)

private theorem length_follow_le (code : Nat) (rs : List ByteRange) (s : Bytes) :
    (follow code rs s).2.length ≤ s.length := by
  induction rs generalizing code s with
  | nil => simp [follow]
  | cons r rs ih =>
    cases s with
    | nil => simp [follow]
    | cons b s =>
      rw [follow]
      split
      · exact Nat.le_trans (ih _ _) (by simp)
      · simp

/-- The characters of a byte string, with `none` for each defect. -/
def decode : Bytes → List (Option Char)
  | [] => []
  | b :: s =>
    match lead? b with
    | none => none :: decode s
    | some (code, rs) => (follow code rs s).1 :: decode (follow code rs s).2
termination_by s => s.length
decreasing_by
  · simp
  · exact Nat.lt_succ_of_le (length_follow_le ..)

/-- The text of the bytes with `U+FFFD` in place of each defect. -/
def lossy (s : Bytes) : String := String.ofList ((decode s).map (·.getD '\ufffd'))

/-- The text of the bytes if they have no defect. -/
def text? (s : Bytes) : Option String := ((decode s).mapM id).map String.ofList

end Utf8

end ChunkedTransfer.Text
