import Mathlib.Data.Nat.Digits.Defs
import ChunkedTransfer.Proofs.SizeLine

/-!
# Values of numerals

The value of a numeral is that of its digits in base sixteen (`numeralValue_eq_ofDigits`), and zeros in front do not
change it. A chunk size is found digit by digit in 64 bits. A test of each product and each sum for overflow is as good
as one test of both (`pushTested?_eq`), and all tests together are as good as one look at the value: the digits of a
numeral have a size exactly if the value fits in 64 bits (`sizeOfDigits?_exact`).
-/

namespace ChunkedTransfer

namespace Grammar

/-- One of the bytes `0` to `9`, `A` to `F` and `a` to `f`. -/
def IsHexByte (b : UInt8) : Prop := (48 ≤ b ∧ b ≤ 57) ∨ (65 ≤ b ∧ b ≤ 70) ∨ (97 ≤ b ∧ b ≤ 102)

instance (b : UInt8) : Decidable (IsHexByte b) := inferInstanceAs (Decidable (_ ∨ _))

/-- The digits that the bytes write, the last place first. Another byte counts as zero. -/
def places (ds : Bytes) : List Nat := ds.reverse.map fun b => (hexDigit? b).getD 0

private theorem isSome_hexDigit?_iff {b : UInt8} : (hexDigit? b).isSome = true ↔ IsHexByte b := by
  have h : ∀ n < 256, (hexDigit? (UInt8.ofNat n)).isSome = true ↔ IsHexByte (UInt8.ofNat n) := by decide +kernel
  simpa using h b.toNat b.toNat_lt

private theorem hexDigit?_lt {b : UInt8} {d : Nat} (h : hexDigit? b = some d) : d < 16 := by
  obtain ⟨hlength, -⟩ := List.findIdx?_eq_some_iff_getElem.1 h
  exact hlength

private theorem places_cons (b : UInt8) (ds : Bytes) : places (b :: ds) = places ds ++ [(hexDigit? b).getD 0] := by
  simp [places]

/-- Counting the places from the front gives what counting them from the back does. -/
theorem numeralValue_eq_ofDigits (ds : Bytes) : numeralValue ds = Nat.ofDigits 16 (places ds) := by
  induction ds with
  | nil => rfl
  | cons b ds ih =>
    have hlength : (places ds).length = ds.length := by simp [places]
    rw [places_cons, Nat.ofDigits_append, Nat.ofDigits_singleton, hlength, ← ih, numeralValue]
    ring

/-- Zeros in front of a numeral have no value. -/
private theorem numeralValue_zeros (n : Nat) (ds : Bytes) :
    numeralValue (List.replicate n 48 ++ ds) = numeralValue ds := by
  induction n with
  | zero => rfl
  | succ n ih =>
    have hzero : hexDigit? 48 = some 0 := by decide
    rw [List.replicate_succ, List.cons_append, numeralValue, hzero, ih]
    simp

end Grammar

namespace SizeLine

open Grammar (IsHexByte places numeralValue hexDigit?)

/-! ### Tests for overflow -/

/-- The product, if it fits in 64 bits. -/
def checkedMul (m n : UInt64) : Option UInt64 := if m.toNat * n.toNat < UInt64.size then some (m * n) else none

/-- The sum, if it fits in 64 bits. -/
def checkedAdd (m n : UInt64) : Option UInt64 := if m.toNat + n.toNat < UInt64.size then some (m + n) else none

/-- Appends a digit to a size, as long as first the product and then the sum fit in 64 bits. -/
def pushTested? (size : UInt64) (digit : Nat) : Option UInt64 :=
  (checkedMul size 16).bind (checkedAdd · (UInt64.ofNat digit))

/-- The chunk size written with the given digits, with a test after each operation. -/
def sizeTested? (ds : Bytes) : Option UInt64 :=
  ds.foldlM (fun size b => (hexDigitValue? b).bind (pushTested? size)) 0

/-- A sum that fits is one of a product that fits. -/
theorem pushTested?_eq (size : UInt64) {digit : Nat} (h : digit < 16) :
    pushTested? size digit = pushDigit? size digit := by
  have hdigit : (UInt64.ofNat digit).toNat = digit := UInt64.toNat_ofNat_of_lt' (by simp only [UInt64.size]; omega)
  have hsixteen : (16 : UInt64).toNat = 16 := rfl
  unfold pushTested? pushDigit? checkedMul
  rw [hsixteen]
  by_cases hproduct : size.toNat * 16 < UInt64.size
  · have hvalue : (size * 16).toNat = size.toNat * 16 := by
      rw [UInt64.toNat_mul, hsixteen]
      exact Nat.mod_eq_of_lt hproduct
    rw [if_pos hproduct, Option.bind_some, checkedAdd, hvalue, hdigit]
    by_cases hsum : size.toNat * 16 + digit < UInt64.size
    · rw [dif_pos hsum, if_pos hsum, Option.some.injEq]
      apply UInt64.toNat_inj.1
      rw [UInt64.toNat_ofNatLT, UInt64.toNat_add, hvalue, hdigit]
      exact Nat.mod_eq_of_lt hsum
    · rw [dif_neg hsum, if_neg hsum]
  · have hsum : ¬ size.toNat * 16 + digit < UInt64.size := by omega
    rw [dif_neg hsum, if_neg hproduct, Option.bind_none]

private theorem sizeTested?_eq (ds : Bytes) : sizeTested? ds = sizeOfDigits? ds := by
  have hstep (size : UInt64) (b : UInt8) :
      (hexDigitValue? b).bind (pushTested? size) = (hexDigitValue? b).bind (pushDigit? size) := by
    cases hb : hexDigitValue? b with
    | none => rfl
    | some digit =>
      rw [hexDigitValue?_eq] at hb
      exact pushTested?_eq size (Grammar.hexDigit?_lt hb)
  simp only [sizeTested?, sizeOfDigits?, hstep]

/-! ### The size of a numeral -/

/-- Without a size there is a byte that is no digit, or a value that does not fit. -/
theorem sizeOfDigits?_eq_none_iff {ds : Bytes} :
    sizeOfDigits? ds = none ↔ ¬ ((∀ b ∈ ds, (hexDigit? b).isSome = true) ∧ numeralValue ds < 2 ^ 64) := by
  constructor
  · rintro h ⟨hdigits, hv⟩
    have hsome : sizeOfDigits? ds = some (UInt64.ofNat (numeralValue ds)) :=
      sizeOfDigits?_eq_some_iff.2 ⟨hdigits, (UInt64.toNat_ofNat_of_lt' hv).symm⟩
    simp [h] at hsome
  · intro h
    cases hs : sizeOfDigits? ds with
    | none => rfl
    | some v =>
      obtain ⟨hdigits, hv⟩ := sizeOfDigits?_eq_some_iff.1 hs
      exact absurd ⟨hdigits, hv ▸ v.toNat_lt⟩ h

/-- The conversion of digits is exact. Bytes of any number have a size exactly if all of them are digits and their
value in base sixteen fits in 64 bits, and then the size is this value. They have no size exactly if some byte is no
digit or the value does not fit. Zeros in front make no difference, nor do the places at which overflow is tested. -/
theorem sizeOfDigits?_exact (ds : Bytes) :
    (∀ n : Nat, (sizeOfDigits? ds).map UInt64.toNat = some n ↔
      (∀ b ∈ ds, IsHexByte b) ∧ Nat.ofDigits 16 (places ds) = n ∧ n < 2 ^ 64) ∧
      (sizeOfDigits? ds = none ↔ (∃ b ∈ ds, ¬ IsHexByte b) ∨ 2 ^ 64 ≤ Nat.ofDigits 16 (places ds)) ∧
      (∀ n : Nat, sizeOfDigits? (List.replicate n 48 ++ ds) = sizeOfDigits? ds) ∧
      sizeTested? ds = sizeOfDigits? ds := by
  have hbytes : (∀ b ∈ ds, (hexDigit? b).isSome = true) ↔ ∀ b ∈ ds, IsHexByte b :=
    forall₂_congr fun b _ => Grammar.isSome_hexDigit?_iff
  have hvalue := Grammar.numeralValue_eq_ofDigits ds
  refine ⟨fun n => ?_, ?_, fun n => ?_, sizeTested?_eq ds⟩
  · rw [← hvalue, ← hbytes, Option.map_eq_some_iff]
    constructor
    · rintro ⟨v, hv, rfl⟩
      obtain ⟨hdigits, hv⟩ := sizeOfDigits?_eq_some_iff.1 hv
      exact ⟨hdigits, hv, v.toNat_lt⟩
    · rintro ⟨hdigits, rfl, hn⟩
      have hn' := UInt64.toNat_ofNat_of_lt' hn
      exact ⟨_, sizeOfDigits?_eq_some_iff.2 ⟨hdigits, hn'.symm⟩, hn'⟩
  · rw [sizeOfDigits?_eq_none_iff, ← hvalue, hbytes, not_and_or, Nat.not_lt]
    simp only [not_forall, exists_prop]
  · have hzero : (hexDigit? 48).isSome = true := by decide
    refine Option.ext fun v => ?_
    rw [sizeOfDigits?_eq_some_iff, sizeOfDigits?_eq_some_iff, Grammar.numeralValue_zeros]
    refine and_congr_left fun _ => ?_
    constructor
    · intro h b hb
      exact h b (List.mem_append_right _ hb)
    · intro h b hb
      rcases List.mem_append.1 hb with hb | hb
      · rw [List.eq_of_mem_replicate hb]
        exact hzero
      · exact h b hb

/-- The largest size, with zeros in front, and the first value that is too large. -/
example : sizeOfDigits? (List.replicate 3 48 ++ List.replicate 16 102) = some 0xffffffffffffffff ∧
    sizeOfDigits? (49 :: List.replicate 16 48) = none := by decide

end SizeLine

end ChunkedTransfer
