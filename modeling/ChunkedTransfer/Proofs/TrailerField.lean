import ChunkedTransfer.Proofs.SizeLine
import ChunkedTransfer.TrailerField

/-!
# Reading trailer fields

A trailer line is a token, a colon, blanks and a value. Blanks are bytes of a value too, so that the place where the
value begins is free until it is asked that it does not begin with a blank. The key is not free: no colon belongs to a
token, and thus the first colon of a line is the one behind its key.

A parser that takes the longest front of each class loses no line by that (`parser_line`). What is left to the value is
the part behind all blanks, and this is the only way to divide the line (`parser_exact`).
-/

namespace ChunkedTransfer

open Grammar (AllBlank IsToken IsTokenByte IsValueByte IsTrailerLine)

namespace Dialect

private theorem isFieldValueByte_iff {δ : Dialect} {b : UInt8} : δ.isFieldValueByte b = true ↔ IsValueByte δ b := by
  cases δ <;> simp [isFieldValueByte, IsValueByte, or_assoc]

/-- What the strict dialect allows in a value is allowed in either dialect. -/
private theorem isValueByte_of_strict (δ : Dialect) {b : UInt8} (h : IsValueByte .strict b) : IsValueByte δ b := by
  rcases h with h | h | ⟨h, -⟩
  · exact .inl h
  · exact .inr (.inl h)
  · exact absurd h (by decide)

end Dialect

namespace TrailerField

private theorem isTokenByte_iff {b : UInt8} : isTokenByte b = true ↔ IsTokenByte b := by
  simp [isTokenByte, IsTokenByte, or_assoc]

private theorem ne_colon_of_isTokenByte {b : UInt8} (h : isTokenByte b = true) : b ≠ colon := by
  rintro rfl
  exact absurd h (by decide)

/-- The parts that a trailer line is made of. -/
structure Parts (δ : Dialect) where
  key : Bytes
  blanks : Bytes
  /-- The value, which may begin with further blanks. -/
  value : Bytes
  isToken : IsToken key
  allBlank : AllBlank blanks
  isValue : ∀ b ∈ value, IsValueByte δ b

namespace Parts

variable {δ : Dialect}

def line (p : Parts δ) : Bytes := p.key ++ colon :: (p.blanks ++ p.value)

/-- The value has no blank in front. -/
def IsTrimmed (p : Parts δ) : Prop := ∀ b ∈ p.value.head?, isBlank b = false

private theorem IsTrimmed.dropWhile_value {p : Parts δ} (h : p.IsTrimmed) : p.value.dropWhile isBlank = p.value := by
  have hsplit : (([] : Bytes) ++ p.value).dropWhile isBlank = p.value := (takeWhile_append_of_head (by simp) h).2
  simpa using hsplit

private theorem isTrailerLine {p : Parts δ} (h : p.IsTrimmed) : IsTrailerLine δ p.line p.key p.value := by
  have hline : p.line = p.key ++ 58 :: p.blanks ++ p.value := by simp [line, colon]
  rw [hline]
  refine .intro p.isToken p.allBlank p.isValue ?_
  intro b hb hblank
  have hb := h b hb
  rw [isBlank_iff.2 hblank] at hb
  simp at hb

/-- The bytes in front of the first colon are the key. -/
private theorem takeWhile_line (p : Parts δ) : p.line.takeWhile (· != colon) = p.key := by
  have hkey : ∀ b ∈ p.key, (b != colon) = true := by
    intro b hb
    simpa using ne_colon_of_isTokenByte (isTokenByte_iff.2 (p.isToken.2 b hb))
  exact (takeWhile_append_of_head hkey (by simp)).1

/-- The same line with all blanks in front of the value taken out of it. -/
def trim (p : Parts δ) : Parts δ where
  key := p.key
  blanks := p.blanks ++ p.value.takeWhile isBlank
  value := p.value.dropWhile isBlank
  isToken := p.isToken
  allBlank b hb := by
    rcases List.mem_append.1 hb with hb | hb
    · exact p.allBlank b hb
    · exact allBlank_takeWhile p.value b hb
  isValue b hb := p.isValue b (List.dropWhile_sublist _ |>.subset hb)

@[simp] theorem line_trim (p : Parts δ) : p.trim.line = p.line := by
  simp [line, trim, List.takeWhile_append_dropWhile]

private theorem isTrimmed_trim (p : Parts δ) : p.trim.IsTrimmed := by
  intro b hb
  have hhead := List.head?_dropWhile_not isBlank p.value
  simp only [trim, Option.mem_def] at hb
  rw [hb] at hhead
  simpa using hhead

/-- The parts in the tolerant dialect. -/
private def toTolerant (p : Parts .strict) : Parts .tolerant where
  key := p.key
  blanks := p.blanks
  value := p.value
  isToken := p.isToken
  allBlank := p.allBlank
  isValue b hb := Dialect.isValueByte_of_strict .tolerant (p.isValue b hb)

end Parts

variable {δ : Dialect}

private theorem exists_parts_of_isTrailerLine {line key value : Bytes} (h : IsTrailerLine δ line key value) :
    ∃ p : Parts δ, p.IsTrimmed ∧ p.line = line ∧ p.key = key ∧ p.value = value := by
  obtain ⟨hk, hb, hv, hh⟩ := h
  refine ⟨⟨_, _, _, hk, hb, hv⟩, ?_, by simp [Parts.line, colon], rfl, rfl⟩
  intro b hm
  by_contra hblank
  exact hh b hm (isBlank_iff.1 (by simpa using hblank))

/-- The parser finds the key, and what follows the blanks is the value. -/
theorem parser_line (p : Parts δ) : parser δ p.line = .ok (⟨p.key, p.value.dropWhile isBlank⟩, []) := by
  have hkey : ∀ b ∈ p.key, isTokenByte b = true := fun b hb => isTokenByte_iff.2 (p.isToken.2 b hb)
  have hcolon : ∀ b ∈ (colon :: (p.blanks ++ p.value)).head?, isTokenByte b = false := by
    simp only [List.head?_cons, Option.mem_def, Option.some.injEq, forall_eq']
    decide
  have htoken := takeWhile_append_of_head hkey hcolon
  have hblanks : (p.blanks ++ p.value).dropWhile isBlank = p.value.dropWhile isBlank :=
    List.dropWhile_append_of_pos fun b hb => isBlank_iff.2 (p.allBlank b hb)
  have hvalue : ∀ b ∈ p.value.dropWhile isBlank, δ.isFieldValueByte b = true := by
    intro b hb
    exact Dialect.isFieldValueByte_iff.2 (p.trim.isValue b hb)
  have hend : ∀ b ∈ ([] : Bytes).head?, δ.isFieldValueByte b = false := by simp
  have hrest := takeWhile_append_of_head hvalue hend
  rw [List.append_nil] at hrest
  simp only [parser, Parser.bind_apply, Parser.run1, Parser.run, Parts.line, htoken]
  rw [if_neg (by simpa using p.isToken.1)]
  simp only [Parser.byte, if_true, hblanks, hrest, Parser.lineEnd, Parser.pure_apply]

/-- A line that is accepted is made of parts. -/
theorem exists_parts_of_ok {line : Bytes} {r : TrailerField × Bytes} (h : parser δ line = .ok r) :
    ∃ p : Parts δ, p.line = line := by
  simp only [parser, Parser.bind_apply, Parser.run1, Parser.run] at h
  by_cases hkey : (line.takeWhile isTokenByte).isEmpty = true
  · simp [hkey] at h
  · rw [if_neg hkey] at h
    simp only at h
    cases hcolon : line.dropWhile isTokenByte with
    | nil => simp [hcolon, Parser.byte] at h
    | cons c s =>
      by_cases hc : c = colon
      · simp only [hcolon, Parser.byte, if_pos hc] at h
        cases hrest : (s.dropWhile isBlank).dropWhile δ.isFieldValueByte with
        | nil =>
          refine ⟨⟨line.takeWhile isTokenByte, s.takeWhile isBlank, s.dropWhile isBlank, ⟨?_, ?_⟩,
            allBlank_takeWhile s, ?_⟩, ?_⟩
          · simpa using hkey
          · intro b hb
            exact isTokenByte_iff.1 (List.mem_takeWhile_imp hb)
          · intro b hb
            exact Dialect.isFieldValueByte_iff.1 (List.dropWhile_eq_nil_iff.1 hrest b hb)
          · rw [Parts.line, List.takeWhile_append_dropWhile, ← hc, ← hcolon, List.takeWhile_append_dropWhile]
        | cons e es => simp [hrest, Parser.lineEnd] at h
      · simp [hcolon, Parser.byte, hc] at h

private theorem parser_eq_ok_iff {line rest : Bytes} {field : TrailerField} :
    parser δ line = .ok (field, rest) ↔ IsTrailerLine δ line field.key field.value ∧ rest = [] := by
  constructor
  · intro h
    obtain ⟨p, rfl⟩ := exists_parts_of_ok h
    rw [parser_line, Except.ok.injEq, Prod.mk.injEq] at h
    obtain ⟨rfl, rfl⟩ := h
    have htrim := Parts.isTrailerLine p.isTrimmed_trim
    rw [p.line_trim] at htrim
    exact ⟨htrim, rfl⟩
  · rintro ⟨h, rfl⟩
    obtain ⟨p, hp, hline, hk, hv⟩ := exists_parts_of_isTrailerLine h
    rw [← hline, parser_line, hp.dropWhile_value, hk, hv]

/-- A line is divided in one way only, once no blank is left in front of the value. -/
private theorem Parts.eq_of_line_eq {p q : Parts δ} (hp : p.IsTrimmed) (hq : q.IsTrimmed) (h : p.line = q.line) :
    p = q := by
  have hparse := parser_line p
  rw [h, parser_line q, hp.dropWhile_value, hq.dropWhile_value] at hparse
  simp only [Except.ok.injEq, Prod.mk.injEq, TrailerField.mk.injEq, and_true] at hparse
  obtain ⟨hkey, hvalue⟩ := hparse
  -- The blanks are what stands between the key and the value.
  rw [line, line, hkey, hvalue, List.append_cancel_left_eq, List.cons.injEq, List.append_cancel_right_eq] at h
  cases p
  cases q
  simp only [mk.injEq]
  exact ⟨hkey.symm, h.2, hvalue.symm⟩

/-- The parser accepts the lines that are made of parts, and leaves nothing. The key is what stands in front of the
first colon, and the value is the rest without the blanks in front of it. Each line that is accepted is divided in one
way with no blank in front of the value, and a line that is put together so gives back its key and its value. The
tolerant dialect accepts what the strict one accepts, with the same key and the same value. -/
theorem parser_exact (δ : Dialect) :
    (∀ line, (∃ r, parser δ line = .ok r) ↔ ∃ p : Parts δ, p.line = line) ∧
      (∀ p : Parts δ, parser δ p.line = .ok (⟨p.key, p.value.dropWhile isBlank⟩, []) ∧
        p.key = p.line.takeWhile (· != colon) ∧ ∃! q : Parts δ, q.IsTrimmed ∧ q.line = p.line) ∧
      (∀ line field rest, parser δ line = .ok (field, rest) ↔
        IsTrailerLine δ line field.key field.value ∧ rest = []) ∧
      ∀ line r, parser .strict line = .ok r → parser .tolerant line = .ok r := by
  refine ⟨fun line => ⟨?_, ?_⟩, fun p => ⟨parser_line p, p.takeWhile_line.symm, p.trim, ?_, ?_⟩,
    fun _ _ _ => parser_eq_ok_iff, ?_⟩
  · rintro ⟨r, h⟩
    exact exists_parts_of_ok h
  · rintro ⟨p, rfl⟩
    exact ⟨_, parser_line p⟩
  · exact ⟨p.isTrimmed_trim, p.line_trim⟩
  · rintro q ⟨hq, hline⟩
    apply Parts.eq_of_line_eq hq p.isTrimmed_trim
    rw [hline, p.line_trim]
  · intro line r h
    obtain ⟨p, rfl⟩ := exists_parts_of_ok h
    have htolerant := parser_line p.toTolerant
    rw [parser_line] at h
    rw [← h]
    exact htolerant

/-- Blanks behind the value and further colons belong to it. -/
example : parser .strict [88, 58, 32, 9, 97, 58, 98, 32] = .ok (⟨[88], [97, 58, 98, 32]⟩, []) := by rfl

end TrailerField

end ChunkedTransfer
