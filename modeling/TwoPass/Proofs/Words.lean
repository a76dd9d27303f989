import TwoPass.Proofs.Encoding

/-
  The code of a word, for every text that may stand as its operand. A text is a `Decimal.Numeral`
  or it is not; a numeral denotes a value or is overlong. So an operand is refused in one of three
  ways (`word_eq_error_iff`), and otherwise its code is the one text of six upper-case digits whose
  value is that of the operand modulo `2 ^ 24` (`word_exact`).
-/

namespace TwoPass

namespace Decimal

/-- An optional minus sign and one or more digits. -/
inductive Numeral : Text → Prop
  | plain {ds : Text} (some : ds ≠ []) (digits : ∀ c ∈ ds, isDigit c = true) : Numeral ds
  | negative {ds : Text} (some : ds ≠ []) (digits : ∀ c ∈ ds, isDigit c = true) :
      Numeral ('-' :: ds)

theorem Denotes.numeral {t : Text} {v : Int} (h : Denotes t v) : Numeral t := by
  cases h with
  | plain hne _ hd => exact .plain hne hd
  | negative hne _ hd => exact .negative hne hd

theorem Overlong.numeral {t : Text} {n : Nat} (h : Overlong t n) : Numeral t := by
  have hne : ∀ {ds : Text}, digitLimit < ds.length → ds ≠ [] :=
    fun hl => List.length_pos_iff.mp (Nat.zero_lt_of_lt hl)
  cases h with
  | plain hl hd => exact .plain (hne hl) hd
  | negative hl hd => exact .negative (hne hl) hd

/-- A numeral denotes a value, unless it has too many digits. -/
theorem Numeral.denotes_or_overlong {t : Text} (h : Numeral t) :
    (∃ v, Denotes t v) ∨ ∃ n, Overlong t n := by
  cases h with
  | plain hne hd =>
    rcases Nat.lt_or_ge digitLimit t.length with hl | hl
    · exact .inr ⟨_, .plain hl hd⟩
    · exact .inl ⟨_, .plain hne hl hd⟩
  | @negative ds hne hd =>
    rcases Nat.lt_or_ge digitLimit ds.length with hl | hl
    · exact .inr ⟨_, .negative hl hd⟩
    · exact .inl ⟨_, .negative hne hl hd⟩

/-- A text is malformed exactly if it is no numeral. -/
theorem read_eq_malformed_iff {t : Text} : read t = .malformed ↔ ¬ Numeral t := by
  constructor
  · intro h hnum
    rcases hnum.denotes_or_overlong with ⟨v, hv⟩ | ⟨n, hn⟩
    · cases h.symm.trans (read_eq_number_iff.mpr hv)
    · cases h.symm.trans (read_eq_tooLong_iff.mpr hn)
  · intro hnum
    cases h : read t with
    | malformed => rfl
    | number v => exact absurd (read_eq_number_iff.mp h).numeral hnum
    | tooLong n => exact absurd (read_eq_tooLong_iff.mp h).numeral hnum

/-- A numeral denotes one value. -/
theorem Denotes.unique {t : Text} {v w : Int} (hv : Denotes t v) (hw : Denotes t w) : v = w := by
  have hsame := (read_eq_number_iff.mpr hv).symm.trans (read_eq_number_iff.mpr hw)
  exact Reading.number.inj hsame

end Decimal

namespace Operand

/-- A decimal operand is refused for what it is, or for its length. -/
theorem decimal_eq_error_iff {t : Text} {cause : Cause} : decimal t = .error cause ↔
    (cause = .notANumber t .decimal ∧ ¬ Decimal.Numeral t) ∨
      ∃ n, cause = .tooManyDigits n ∧ Decimal.Overlong t n := by
  simp only [← Decimal.read_eq_malformed_iff, ← Decimal.read_eq_tooLong_iff]
  unfold decimal
  cases Decimal.read t <;> simp [eq_comm]

end Operand

namespace Code

/-- A word is refused because its operand is no numeral, has too many digits, or denotes a value
    that 24 bits do not hold. -/
theorem word_eq_error_iff {t : Text} {cause : Cause} : word t = .error cause ↔
    (cause = .notANumber t .decimal ∧ ¬ Decimal.Numeral t) ∨
    (∃ n, cause = .tooManyDigits n ∧ Decimal.Overlong t n) ∨
    ∃ v, cause = .wordOutOfRange v ∧ Decimal.Denotes t v ∧ (v < -2 ^ 23 ∨ 2 ^ 24 - 1 < v) := by
  rw [← or_assoc, ← Operand.decimal_eq_error_iff]
  simp only [← Operand.decimal_eq_ok_iff]
  unfold word
  have hmin : wordMin = -2 ^ 23 := rfl
  have hcount : wordCount = 2 ^ 24 := rfl
  cases Operand.decimal t with
  | error cause' => simp
  | ok v =>
    simp only [Except.ok.injEq, reduceCtorEq, false_or]
    by_cases hv : wordMin ≤ v ∧ v < wordCount
    · rw [if_pos hv]
      refine iff_of_false nofun ?_
      rintro ⟨w, -, rfl, hout⟩
      omega
    · rw [if_neg hv, Except.error.injEq]
      constructor
      · rintro rfl
        exact ⟨v, rfl, rfl, by omega⟩
      · rintro ⟨w, rfl, rfl, -⟩
        rfl

/-- Six upper-case digits that have the value of an operand modulo `2 ^ 24`. -/
theorem word_eq_ok_iff_value {t code : Text} : word t = .ok code ↔
    ∃ v, Decimal.Denotes t v ∧ (-2 ^ 23 ≤ v ∧ v ≤ 2 ^ 24 - 1) ∧
      code.length = 6 ∧ (∀ c ∈ code, c ∈ Hex.upper) ∧ (Hex.value code : Int) = v % 2 ^ 24 := by
  have hcode : ∀ v : Int, code = Hex.digits 6 (v % 2 ^ 24).toNat ↔
      code.length = 6 ∧ (∀ c ∈ code, c ∈ Hex.upper) ∧ (Hex.value code : Int) = v % 2 ^ 24 := by
    intro v
    have hvalue : Hex.value code = (v % 2 ^ 24).toNat ↔ (Hex.value code : Int) = v % 2 ^ 24 := by
      omega
    rw [Hex.eq_digits_iff (by omega), hvalue]
  rw [word_eq_ok_iff]
  constructor
  · rintro ⟨⟨v, hv, hrange⟩, hdigits⟩
    rw [wordValue_of_denotes hv] at hdigits
    exact ⟨v, hv, hrange, (hcode v).mp hdigits⟩
  · rintro ⟨v, hv, hrange, hdigits⟩
    rw [wordValue_of_denotes hv]
    exact ⟨⟨v, hv, hrange⟩, (hcode v).mpr hdigits⟩

/-- The code of a word is exact on every text. A text has a code exactly if it is an optional minus
    sign and at most `digitLimit` digits that denote a value of 24 bits, signed or unsigned; the
    code is six upper-case digits, and their value is that of the text modulo `2 ^ 24`. So two
    texts have one code exactly if their values agree modulo `2 ^ 24`. A text without a code is no
    numeral, or has too many digits, or its value is out of range, and is refused for that. -/
theorem word_exact (t : Text) :
    (∀ code, word t = .ok code ↔
      ∃ v, Decimal.Denotes t v ∧ (-2 ^ 23 ≤ v ∧ v ≤ 2 ^ 24 - 1) ∧
        code.length = 6 ∧ (∀ c ∈ code, c ∈ Hex.upper) ∧ (Hex.value code : Int) = v % 2 ^ 24) ∧
    (∀ t' code code' v v', word t = .ok code → word t' = .ok code' →
      Decimal.Denotes t v → Decimal.Denotes t' v' →
      (code = code' ↔ v % 2 ^ 24 = v' % 2 ^ 24)) ∧
    ∀ cause, word t = .error cause ↔
      (cause = .notANumber t .decimal ∧ ¬ Decimal.Numeral t) ∨
      (∃ n, cause = .tooManyDigits n ∧ Decimal.Overlong t n) ∨
      ∃ v, cause = .wordOutOfRange v ∧ Decimal.Denotes t v ∧ (v < -2 ^ 23 ∨ 2 ^ 24 - 1 < v) := by
  refine ⟨fun code => word_eq_ok_iff_value, ?_, fun cause => word_eq_error_iff⟩
  intro t' code code' v v' hcode hcode' hv hv'
  constructor
  · rintro rfl
    obtain ⟨w, hw, -, -, -, hvalue⟩ := word_eq_ok_iff_value.mp hcode
    obtain ⟨w', hw', -, -, -, hvalue'⟩ := word_eq_ok_iff_value.mp hcode'
    rw [hv.unique hw, hv'.unique hw', ← hvalue, hvalue']
  · intro hmod
    rw [(word_eq_ok_iff.mp hcode).2, (word_eq_ok_iff.mp hcode').2, wordValue_of_denotes hv,
      wordValue_of_denotes hv', hmod]

/-- The least number of a word shares its code with a number above it by `2 ^ 24`; the number next
    below has none. -/
theorem word_exact_limits :
    (∃ code code', word "-8388608" = .ok code ∧ word "8388608" = .ok code' ∧
      code.length = 6 ∧ (Hex.value code : Int) = -8388608 % 2 ^ 24 ∧
      (code = code' ↔ (-8388608 : Int) % 2 ^ 24 = 8388608 % 2 ^ 24)) ∧
    word "-8388609" = .error (.wordOutOfRange (-8388609)) := by
  have hlow : Decimal.Denotes "-8388608" (-8388608) := Decimal.read_eq_number_iff.mp (by decide)
  have hhigh : Decimal.Denotes "8388608" 8388608 := Decimal.read_eq_number_iff.mp (by decide)
  have hout : Decimal.Denotes "-8388609" (-8388609) := Decimal.read_eq_number_iff.mp (by decide)
  have hcode : word "-8388608" = .ok "800000".toList := by decide
  have hcode' : word "8388608" = .ok "800000".toList := by decide
  obtain ⟨hok, hshared, -⟩ := word_exact "-8388608"
  obtain ⟨v, hv, -, hlength, -, hvalue⟩ := (hok _).mp hcode
  rw [hv.unique hlow] at hvalue
  refine ⟨⟨_, _, hcode, hcode', hlength, hvalue, ?_⟩, ?_⟩
  · exact hshared _ _ _ _ _ hcode hcode' hlow hhigh
  · exact ((word_exact "-8388609").2.2 _).mpr (.inr (.inr ⟨_, rfl, hout, by decide⟩))

end Code

end TwoPass
