import ChunkedTransfer.Proofs.SizeLine

/-!
# The parts of a size line

A size line is divided in one way only (`SizeLine.Parts.line_injective`). The blanks in front, the numeral and the
blanks behind it are each the longest front of their class, since no digit is a blank, and what follows the blanks is
nothing or starts with a semicolon. So nothing is lost to a parser that takes the longest front each time and never
gives any of it back: it accepts the lines that have parts, and finds their numeral (`SizeLine.digits_exact`).
-/

namespace ChunkedTransfer.SizeLine

open Grammar (AllBlank IsNumeral)

/-- The parts that a size line is made of. -/
structure Parts where
  before : Bytes
  numeral : Bytes
  after : Bytes
  /-- Nothing, or a semicolon and the extension behind it. -/
  tail : Bytes
  allBlank_before : AllBlank before
  isNumeral : IsNumeral numeral
  allBlank_after : AllBlank after
  isTail : IsTail tail

namespace Parts

def line (p : Parts) : Bytes := p.before ++ p.numeral ++ p.after ++ p.tail

/-- Each part is what the parser takes for it. -/
private theorem split (p : Parts) :
    let front := p.line.dropWhile isBlank
    let back := front.dropWhile isHexDigit
    p.line.takeWhile isBlank = p.before ∧ front.takeWhile isHexDigit = p.numeral ∧
      back.takeWhile isBlank = p.after ∧ back.dropWhile isBlank = p.tail :=
  split_line p.allBlank_before p.isNumeral p.allBlank_after p.isTail

/-- A line has one division into parts. -/
theorem line_injective : Function.Injective line := by
  intro p q h
  obtain ⟨hbefore, hnumeral, hafter, htail⟩ := p.split
  obtain ⟨hbefore', hnumeral', hafter', htail'⟩ := q.split
  rw [← h] at hbefore' hnumeral' hafter' htail'
  cases p
  cases q
  simp only [mk.injEq]
  exact ⟨hbefore.symm.trans hbefore', hnumeral.symm.trans hnumeral', hafter.symm.trans hafter',
    htail.symm.trans htail'⟩

private theorem isSizeLine (p : Parts) : Grammar.IsSizeLine p.line p.numeral :=
  isSizeLine_iff.2 ⟨p.before, p.after, p.tail, p.allBlank_before, p.isNumeral, p.allBlank_after, p.isTail, rfl⟩

end Parts

private theorem exists_parts {line numeral : Bytes} (h : Grammar.IsSizeLine line numeral) :
    ∃ p : Parts, p.line = line ∧ p.numeral = numeral := by
  obtain ⟨before, after, tail, hb, hn, ha, ht, hline⟩ := isSizeLine_iff.1 h
  exact ⟨⟨before, numeral, after, tail, hb, hn, ha, ht⟩, hline.symm, rfl⟩

/-- The parser accepts the lines that are made of parts, which are then the only ones. It finds their numeral whatever
the blanks around it are and whatever the extension holds, and leaves nothing. -/
theorem digits_exact :
    (∀ line : Bytes, (∃ r, digits line = .ok r) ↔ ∃! p : Parts, p.line = line) ∧
      ∀ p : Parts, digits p.line = .ok (p.numeral, []) := by
  have hdigits (p : Parts) : digits p.line = .ok (p.numeral, []) := digits_eq_ok_iff.2 ⟨p.isSizeLine, rfl⟩
  refine ⟨fun line => ⟨?_, ?_⟩, hdigits⟩
  · rintro ⟨⟨numeral, rest⟩, h⟩
    obtain ⟨p, hline, -⟩ := exists_parts (digits_eq_ok_iff.1 h).1
    refine ⟨p, hline, fun q hq => ?_⟩
    apply Parts.line_injective
    rw [hq, hline]
  · rintro ⟨p, rfl, -⟩
    exact ⟨_, hdigits p⟩

/-- Digits in an extension do not count, nor does a second semicolon end it. -/
example : digits [32, 52, 9, 59, 53, 13, 59, 255] = .ok ([52], []) := by rfl

end ChunkedTransfer.SizeLine
