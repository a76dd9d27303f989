import TwoPass.Proofs.Grammar
import TwoPass.Source.Operand

/-
  Hexadecimal fields are read as they are written, by both of their readers: the one of operands and
  the one of records. `padded_eq_leftpad` says what is written: the digits of the number in base
  sixteen, in upper case, behind as many zeros as the width asks for. What is read is said once, for
  `read?` (`read?_eq_none_iff`, `padded_of_read?`), and each reader adds its own fault to it.
-/

namespace TwoPass

namespace Hex

/-! ## What is written -/

theorem digit_eq_digitChar {n : Nat} (h : n < 16) : digit n = n.digitChar.toUpper := by
  have hall : ∀ m : Fin 16, digit m = (m : Nat).digitChar.toUpper := by decide
  exact hall ⟨n, h⟩

theorem digits_zero (k : Nat) : digits k 0 = List.replicate k '0' := by
  induction k with
  | zero => rfl
  | succ k ih =>
    rw [digits, ih, List.replicate_succ']
    rfl

/-- Before the digits of a number stand zeros. -/
theorem digits_add {m n : Nat} (k : Nat) (h : n < 16 ^ m) :
    digits (k + m) n = List.replicate k '0' ++ digits m n := by
  induction m generalizing n with
  | zero =>
    have hn : n = 0 := by simpa using h
    rw [hn, digits, List.append_nil, Nat.add_zero, digits_zero]
  | succ m ih =>
    have hhigh : n / 16 < 16 ^ m := by
      rw [Nat.div_lt_iff_lt_mul (by decide)]
      rwa [Nat.pow_succ] at h
    rw [← Nat.add_assoc, digits, digits, ih hhigh, List.append_assoc]

theorem length_eq_length_toDigits (n : Nat) : length n = (Nat.toDigits 16 n).length := by
  have hle : ∀ {k : Nat}, 0 < k → (length n ≤ k ↔ (Nat.toDigits 16 n).length ≤ k) := by
    intro k hk
    rw [length_le_iff hk, Nat.length_toDigits_le_iff (by decide) hk]
  apply Nat.le_antisymm
  · exact (hle Nat.length_toDigits_pos).mpr (Nat.le_refl _)
  · exact (hle (Nat.succ_pos _)).mp (Nat.le_refl _)

theorem digits_toDigits (n : Nat) :
    digits (Nat.toDigits 16 n).length n = (Nat.toDigits 16 n).map Char.toUpper := by
  induction n using Nat.strongRecOn with
  | ind n ih =>
    rw [Nat.toDigits_eq_if (by decide)]
    by_cases hn : n < 16
    · rw [if_pos hn]
      show [digit (n % 16)] = [n.digitChar.toUpper]
      rw [Nat.mod_eq_of_lt hn, digit_eq_digitChar hn]
    · have hless : n / 16 < n := Nat.div_lt_self (by omega) (by decide)
      rw [if_neg hn, List.length_append, List.length_singleton, digits, ih _ hless,
        digit_eq_digitChar (Nat.mod_lt _ (by decide)), List.map_append, List.map_singleton]

/-- A number is written with its digits in base sixteen, in upper case, and zeros before them. -/
theorem padded_eq_leftpad (w n : Nat) :
    padded w n = ((Nat.toDigits 16 n).map Char.toUpper).leftpad w '0' := by
  have hlength := length_eq_length_toDigits n
  have hpos : 0 < (Nat.toDigits 16 n).length := Nat.length_toDigits_pos
  have hlt : n < 16 ^ (Nat.toDigits 16 n).length :=
    (Nat.length_toDigits_le_iff (by decide) hpos).mp (Nat.le_refl _)
  have hwidth : max w (Nat.toDigits 16 n).length =
      (w - (Nat.toDigits 16 n).length) + (Nat.toDigits 16 n).length := by omega
  rw [padded, hlength, hwidth, digits_add _ hlt, digits_toDigits, List.leftpad, List.length_map]

/-! ## What is read -/

/-- A text is not read exactly if it is empty or has a character that is no digit. -/
theorem read?_eq_none_iff {t : Text} : read? t = none ↔ t = [] ∨ ∃ c ∈ t, c ∉ alphabet := by
  rw [← Option.not_isSome_iff_eq_none, isSome_read?_iff]
  simp only [isDigit_iff, ne_eq, not_and_or, not_not, not_forall, exists_prop]

/-- A number that was read is written, at the same width, as it was in upper case. -/
theorem padded_of_read? {t : Text} {n : Nat} (h : read? t = some n) :
    padded t.length n = t.map Char.toUpper := by
  obtain ⟨hne, hdigits, rfl⟩ := read?_eq_some_iff.mp h
  exact padded_value hne hdigits

end Hex

theorem Operand.hexadecimal_eq_ok_iff {t : Text} {n : Nat} :
    hexadecimal t = .ok n ↔ Hex.read? t = some n := by
  unfold hexadecimal
  cases Hex.read? t <;> simp

theorem Operand.hexadecimal_eq_error_iff {t : Text} {cause : Cause} :
    hexadecimal t = .error cause ↔ cause = .notANumber t .hexadecimal ∧ Hex.read? t = none := by
  unfold hexadecimal
  cases Hex.read? t <;> simp [eq_comm]

theorem Object.hexField_eq_ok_iff_read? {t : Text} {n : Nat} :
    hexField t = .ok n ↔ Hex.read? t = some n := by
  rw [hexField_eq_ok_iff, Hex.read?_eq_some_iff]

theorem Object.hexField_eq_error_iff {t : Text} {fault : RecordFault} :
    hexField t = .error fault ↔ fault = .notHex t ∧ Hex.read? t = none := by
  unfold hexField
  cases Hex.read? t <;> simp [eq_comm]

/-- Hexadecimal fields can be written and read back, and read and written again. A number is
    written in upper-case digits behind zeros up to the width, and both readers read it back. Of any
    text the two make the same number, which written at the length of the text is the text in upper
    case; and both refuse a text exactly if it is empty or has a character that is no digit. -/
theorem hexFields_round_trip (w n : Nat) (t : Text) :
    (Hex.padded w n = ((Nat.toDigits 16 n).map Char.toUpper).leftpad w '0' ∧
      Hex.signed w n = Hex.padded w n ∧
      Operand.hexadecimal (Hex.padded w n) = .ok n ∧ Object.hexField (Hex.padded w n) = .ok n) ∧
    (∀ m, Operand.hexadecimal t = .ok m ↔ Object.hexField t = .ok m) ∧
    (∀ m, Operand.hexadecimal t = .ok m → Hex.padded t.length m = t.map Char.toUpper) ∧
    (∀ cause, Operand.hexadecimal t = .error cause ↔
      cause = .notANumber t .hexadecimal ∧ (t = [] ∨ ∃ c ∈ t, c ∉ Hex.alphabet)) ∧
    (∀ fault, Object.hexField t = .error fault ↔
      fault = .notHex t ∧ (t = [] ∨ ∃ c ∈ t, c ∉ Hex.alphabet)) := by
  have hread := Hex.read?_padded w n
  refine ⟨⟨Hex.padded_eq_leftpad w n, Hex.signed_natCast w n, ?_, ?_⟩, ?_, ?_, ?_, ?_⟩
  · exact Operand.hexadecimal_eq_ok_iff.mpr hread
  · exact Object.hexField_eq_ok_iff_read?.mpr hread
  · exact fun m => Operand.hexadecimal_eq_ok_iff.trans Object.hexField_eq_ok_iff_read?.symm
  · exact fun m hm => Hex.padded_of_read? (Operand.hexadecimal_eq_ok_iff.mp hm)
  · intro cause
    rw [Operand.hexadecimal_eq_error_iff, Hex.read?_eq_none_iff]
  · intro fault
    rw [Object.hexField_eq_error_iff, Hex.read?_eq_none_iff]

-- Zeros in front and digits of both cases, and a number that is wider than its field.
example : Operand.hexadecimal "00aF" = .ok 175 ∧ Hex.padded 4 175 = "00AF".toList ∧
    Hex.padded 2 175683 = "2AE43".toList := by decide

end TwoPass
