import Mathlib.Data.List.TakeWhile
import Mathlib.Tactic.Ring
import ChunkedTransfer.Grammar.Line
import ChunkedTransfer.Limits
import ChunkedTransfer.SizeLine

/-!
# Reading size lines

The parser of size lines accepts the lines of the grammar and no others, and finds their numeral
(`digits_eq_ok_iff`). Folding the digits of a numeral gives its value if that fits in 64 bits, however many digits
there are (`sizeOfDigits?_eq_some_iff`). Together these say what the size of a line is (`size_eq_ok_iff`), and what
is accepted of it is a matter of numbers (`Limits.accept_eq_ok_iff`).
-/

namespace ChunkedTransfer

theorem hexDigitValue?_eq (b : UInt8) : hexDigitValue? b = Grammar.hexDigit? b := by
  have h : ∀ n < 256, hexDigitValue? (UInt8.ofNat n) = Grammar.hexDigit? (UInt8.ofNat n) := by decide +kernel
  simpa using h b.toNat b.toNat_lt

private theorem isHexDigit_eq (b : UInt8) : isHexDigit b = (Grammar.hexDigit? b).isSome := by
  rw [isHexDigit, hexDigitValue?_eq]

/-- A digit is neither a blank nor the semicolon before an extension. -/
private theorem isHexDigit_of_isBlank {b : UInt8} (h : isBlank b = true) : isHexDigit b = false := by
  simp only [isBlank, Bool.or_eq_true, beq_iff_eq] at h
  rcases h with rfl | rfl <;> decide

theorem isBlank_iff {b : UInt8} : isBlank b = true ↔ b = 32 ∨ b = 9 := by simp [isBlank]

theorem allBlank_takeWhile (bs : Bytes) : Grammar.AllBlank (bs.takeWhile isBlank) :=
  fun _ hb => isBlank_iff.1 (List.mem_takeWhile_imp hb)

/-- A front of bytes in a class is the longest one if the byte behind it is not in the class. -/
theorem takeWhile_append_of_head {p : UInt8 → Bool} {bs cs : Bytes} (hb : ∀ b ∈ bs, p b = true)
    (hc : ∀ c ∈ cs.head?, p c = false) : (bs ++ cs).takeWhile p = bs ∧ (bs ++ cs).dropWhile p = cs := by
  rw [List.takeWhile_append_of_pos hb, List.dropWhile_append_of_pos hb]
  cases cs with
  | nil => simp
  | cons c cs => simp [hc c rfl]

namespace SizeLine

open Grammar (numeralValue hexDigit? IsNumeral IsSizeLine AllBlank)

/-! ### Values -/

/-- Pushing digits onto a size puts their value behind it, as long as that fits. -/
private theorem foldlM_pushDigit_eq_some_iff (ds : Bytes) (size v : UInt64) :
    ds.foldlM (fun size b => (hexDigitValue? b).bind (pushDigit? size)) size = some v ↔
      (∀ b ∈ ds, (hexDigit? b).isSome = true) ∧ size.toNat * 16 ^ ds.length + numeralValue ds = v.toNat := by
  induction ds generalizing size with
  | nil => simp [numeralValue, UInt64.toNat_inj]
  | cons b ds ih =>
    rw [List.foldlM_cons, hexDigitValue?_eq]
    cases hb : hexDigit? b with
    | none => simp [hb]
    | some d =>
      have hvalue : size.toNat * 16 ^ (b :: ds).length + numeralValue (b :: ds) =
          (size.toNat * 16 + d) * 16 ^ ds.length + numeralValue ds := by
        simp only [numeralValue, hb, Option.getD_some, List.length_cons]
        ring
      rw [hvalue]
      -- A size that does not fit once its next digit is pushed does not fit with any further digits.
      by_cases h : size.toNat * 16 + d < UInt64.size
      · have hp : pushDigit? size d = some (UInt64.ofNatLT _ h) := dif_pos h
        simp only [Option.bind_some, hp, Option.bind_eq_bind, ih, UInt64.toNat_ofNatLT, List.forall_mem_cons, hb,
          Option.isSome_some, true_and]
      · have hp : pushDigit? size d = none := dif_neg h
        simp only [Option.bind_some, hp, Option.bind_eq_bind, Option.bind_none, reduceCtorEq, false_iff, not_and]
        intro _ he
        have hpow := Nat.le_mul_of_pos_right (size.toNat * 16 + d) (Nat.pow_pos (n := ds.length) (by decide : 0 < 16))
        have hv := v.toNat_lt
        simp only [UInt64.size] at h
        omega

/-- The digits have a size exactly if all of them are digits and their value fits in 64 bits. -/
theorem sizeOfDigits?_eq_some_iff {ds : Bytes} {v : UInt64} :
    sizeOfDigits? ds = some v ↔ (∀ b ∈ ds, (hexDigit? b).isSome = true) ∧ numeralValue ds = v.toNat := by
  rw [sizeOfDigits?, foldlM_pushDigit_eq_some_iff]
  simp

/-! ### Forms -/

/-- What may follow the numeral and the blanks after it. -/
def IsTail (bs : Bytes) : Prop := bs = [] ∨ ∃ extension, bs = semicolon :: extension

theorem isSizeLine_iff {line numeral : Bytes} : IsSizeLine line numeral ↔
    ∃ before after tail, AllBlank before ∧ IsNumeral numeral ∧ AllBlank after ∧ IsTail tail ∧
      line = before ++ numeral ++ after ++ tail := by
  constructor
  · rintro (⟨hb, hn, ha⟩ | ⟨hb, hn, ha⟩)
    · exact ⟨_, _, [], hb, hn, ha, .inl rfl, (List.append_nil _).symm⟩
    · exact ⟨_, _, _, hb, hn, ha, .inr ⟨_, rfl⟩, rfl⟩
  · rintro ⟨before, after, tail, hb, hn, ha, rfl | ⟨extension, rfl⟩, rfl⟩
    · rw [List.append_nil]
      exact .plain hb hn ha
    · exact .extended hb hn ha

private theorem orElse_lineEnd_eq_ok_iff {bs rest : Bytes} :
    Parser.orElse Parser.lineEnd (do Parser.byte semicolon; let _ ← Parser.rest) bs = .ok ((), rest) ↔
      IsTail bs ∧ rest = [] := by
  cases bs with
  | nil => simp [Parser.orElse, Parser.lineEnd, IsTail, eq_comm]
  | cons b bs =>
    by_cases hb : b = semicolon
    · simp [Parser.orElse, Parser.lineEnd, Parser.byte, Parser.rest, Parser.bind_apply, IsTail, hb, eq_comm]
    · simp [Parser.orElse, Parser.lineEnd, Parser.byte, Parser.bind_apply, IsTail, hb]

private theorem digits_eq (line : Bytes) : digits line =
    let front := line.dropWhile isBlank
    let back := (front.dropWhile isHexDigit).dropWhile isBlank
    if (front.takeWhile isHexDigit).isEmpty then .error ⟨.hexDigit, front⟩
    else match Parser.orElse Parser.lineEnd (do Parser.byte semicolon; let _ ← Parser.rest) back with
      | .ok (_, rest) => .ok (front.takeWhile isHexDigit, rest)
      | .error e => .error e := by
  simp only [digits, Parser.bind_apply, Parser.run, Parser.run1, Parser.pure_apply]
  by_cases h : ((line.dropWhile isBlank).takeWhile isHexDigit).isEmpty
  · rw [if_pos h, if_pos h]
  · rw [if_neg h, if_neg h]
    simp only
    split <;> simp [*]

private theorem not_isBlank_of_isTail {tail : Bytes} (h : IsTail tail) : ∀ b ∈ tail.head?, isBlank b = false := by
  rcases h with rfl | ⟨extension, rfl⟩
  · simp
  · simp [isBlank, semicolon]

/-- What follows a numeral does not go on with digits. -/
private theorem not_isHexDigit_of_isTail {after tail : Bytes} (ha : AllBlank after) (h : IsTail tail) :
    ∀ b ∈ (after ++ tail).head?, isHexDigit b = false := by
  cases after with
  | nil =>
    rcases h with rfl | ⟨extension, rfl⟩
    · simp
    · simp only [List.nil_append, List.head?_cons, Option.mem_def, Option.some.injEq, forall_eq']
      decide
  | cons b after =>
    simp only [List.cons_append, List.head?_cons, Option.mem_def, Option.some.injEq, forall_eq']
    exact isHexDigit_of_isBlank (isBlank_iff.2 (ha b (List.mem_cons_self ..)))

/-- Each part of a size line is the longest front of its class where it begins. -/
theorem split_line {before numeral after tail : Bytes} (hb : AllBlank before) (hn : IsNumeral numeral)
    (ha : AllBlank after) (ht : IsTail tail) :
    let line := before ++ numeral ++ after ++ tail
    let front := line.dropWhile isBlank
    let back := front.dropWhile isHexDigit
    line.takeWhile isBlank = before ∧ front.takeWhile isHexDigit = numeral ∧ back.takeWhile isBlank = after ∧
      back.dropWhile isBlank = tail := by
  intro line front back
  have hdigit : ∀ b ∈ numeral, isHexDigit b = true := fun b hm => by rw [isHexDigit_eq, hn.2 b hm]
  have hhead : ∀ b ∈ (numeral ++ (after ++ tail)).head?, isBlank b = false := by
    obtain ⟨d, ds, rfl⟩ := List.exists_cons_of_ne_nil hn.1
    simp only [List.cons_append, List.head?_cons, Option.mem_def, Option.some.injEq, forall_eq']
    by_contra hd
    have := isHexDigit_of_isBlank (b := d) (by simpa using hd)
    rw [hdigit d (List.mem_cons_self ..)] at this
    simp at this
  have hfront := takeWhile_append_of_head (fun b hm => isBlank_iff.2 (hb b hm)) hhead
  have hnumeral := takeWhile_append_of_head hdigit (not_isHexDigit_of_isTail ha ht)
  have hback := takeWhile_append_of_head (fun b hm => isBlank_iff.2 (ha b hm)) (not_isBlank_of_isTail ht)
  simp only [back, front, line, List.append_assoc, hfront, hnumeral, hback, and_self]

/-- The parser accepts the size lines, with their numerals, and leaves nothing. -/
theorem digits_eq_ok_iff {line numeral rest : Bytes} :
    digits line = .ok (numeral, rest) ↔ IsSizeLine line numeral ∧ rest = [] := by
  rw [isSizeLine_iff, digits_eq]
  constructor
  · intro h
    simp only at h
    split at h
    · simp at h
    · rename_i hne
      split at h
      · rename_i u rest' ht
        simp only [Except.ok.injEq, Prod.mk.injEq] at h
        obtain ⟨rfl, rfl⟩ := h
        obtain ⟨ht, hr⟩ := orElse_lineEnd_eq_ok_iff.1 ht
        refine ⟨⟨line.takeWhile isBlank, ((line.dropWhile isBlank).dropWhile isHexDigit).takeWhile isBlank, _,
          allBlank_takeWhile _, ⟨fun he => hne (List.isEmpty_iff.2 he), fun b hb => ?_⟩,
          allBlank_takeWhile _, ht, ?_⟩, hr⟩
        · rw [← isHexDigit_eq]
          exact List.mem_takeWhile_imp hb
        · simp only [List.append_assoc, List.takeWhile_append_dropWhile]
      · simp at h
  · rintro ⟨⟨before, after, tail, hb, hn, ha, ht, rfl⟩, rfl⟩
    obtain ⟨-, hnumeral, -, htail⟩ := split_line hb hn ha ht
    simp only [hnumeral, htail, orElse_lineEnd_eq_ok_iff.2 ⟨ht, rfl⟩]
    rw [if_neg (by simpa using hn.1)]

/-- A size line has one numeral. -/
theorem numeral_unique {line numeral numeral' : Bytes} (h : IsSizeLine line numeral) (h' : IsSizeLine line numeral') :
    numeral = numeral' := by
  have hd := digits_eq_ok_iff.2 ⟨h, rfl⟩
  rw [digits_eq_ok_iff.2 ⟨h', rfl⟩, Except.ok.injEq, Prod.mk.injEq] at hd
  exact hd.1.symm

/-! ### Sizes -/

/-- A line has a size exactly if it is a size line whose numeral has this value. -/
theorem size_eq_ok_iff {line : Bytes} {v : UInt64} :
    size line = .ok v ↔ ∃ numeral, IsSizeLine line numeral ∧ numeralValue numeral = v.toNat := by
  unfold size
  constructor
  · intro h
    split at h
    · simp at h
    · split at h
      · simp at h
      · rename_i ds rest hd
        split at h
        · simp at h
        · rename_i w hw
          simp only [Except.ok.injEq] at h
          subst h
          exact ⟨ds, (digits_eq_ok_iff.1 hd).1, (sizeOfDigits?_eq_some_iff.1 hw).2⟩
  · rintro ⟨numeral, hl, hv⟩
    have hd := digits_eq_ok_iff.2 ⟨hl, rfl⟩
    obtain ⟨before, after, tail, -, hn, -, -, rfl⟩ := isSizeLine_iff.1 hl
    rw [if_neg (by simp [hn.1])]
    simp only [hd, sizeOfDigits?_eq_some_iff.2 ⟨hn.2, hv⟩]

end SizeLine

namespace Limits

theorem toNat_saturatingAdd (m n : UInt64) : (saturatingAdd m n).toNat = min (m.toNat + n.toNat) (UInt64.size - 1) := by
  have hm := m.toNat_lt
  have hn := n.toNat_lt
  unfold saturatingAdd
  split
  · rename_i h
    rw [UInt64.toNat_add, Nat.mod_eq_of_lt h]
    omega
  · rename_i h
    have : maxSize.toNat = UInt64.size - 1 := rfl
    omega

theorem accept_eq_ok_iff {limits : Limits} {decoded size n : UInt64} : limits.accept decoded size = .ok n ↔
    n = size ∧ size.toNat ≤ limits.chunk.toNat ∧
      min (decoded.toNat + size.toNat) (UInt64.size - 1) ≤ limits.body.toNat := by
  rw [← toNat_saturatingAdd]
  unfold accept
  split
  · rename_i h
    rw [UInt64.lt_iff_toNat_lt] at h
    simp
    omega
  · split
    · rename_i h
      rw [UInt64.lt_iff_toNat_lt] at h
      simp
      omega
    · rename_i h h'
      rw [UInt64.lt_iff_toNat_lt] at h h'
      rw [Except.ok.injEq]
      exact ⟨fun he => ⟨he.symm, Nat.le_of_not_lt h, Nat.le_of_not_lt h'⟩, fun he => he.1.symm⟩

end Limits

end ChunkedTransfer
