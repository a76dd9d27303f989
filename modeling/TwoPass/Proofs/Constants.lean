import TwoPass.Proofs.Literals

/-
  The two readers of a `BYTE` operand, one for the number of its bytes and one for its code, on every
  text, also on those that no line has for an operand. `constant_cases` lists what the two make of a
  text side by side; where they part, the text is not announced as a literal and is counted as a
  word, or it is a literal with a character that has no code. So the size is half the length of the
  code, and the first pass refuses nothing that the second would take (`byte_size_matches_code`).
-/

namespace TwoPass

open Source

theorem ByteLiteral.announced_eq_false_iff {t : Text} :
    announced t = false ↔ t.head? ≠ some 'C' ∧ t.head? ≠ some 'X' := by
  cases t with
  | nil => simp [announced]
  | cons c cs => simp [announced]

theorem ByteLiteral.not_isAscii_iff {l : ByteLiteral} :
    ¬ l.IsAscii ↔ ∃ body, l = .characters body ∧ ∃ c ∈ body, 128 ≤ c.toNat := by
  cases l with
  | characters body => simp [IsAscii]
  | hex body => simp [IsAscii]

/-- What is not announced as a literal is counted as a word and has no code. -/
theorem constant_unannounced {operand : Text} (ha : ByteLiteral.announced operand = false) :
    Operation.constantSize (some operand) = .ok wordSize ∧
      Code.byte operand = .error (.notByteLiteral operand) := by
  constructor
  · rw [Operation.constantSize, ha, if_neg Bool.false_ne_true]
  · rw [Code.byte, ByteLiteral.read, ha]
    rfl

/-- What counting and encoding make of an operand. It is not announced as a literal, or refused by
    both, or a literal that is counted; a literal has a code if its characters are ASCII. -/
theorem constant_cases (operand : Text) :
    ByteLiteral.announced operand = false ∨
    (∃ cause, Operation.constantSize (some operand) = .error cause ∧
      Code.byte operand = .error cause) ∨
    ∃ l : ByteLiteral, operand = l.text ∧ Operation.constantSize (some operand) = .ok l.size ∧
      (l.IsAscii ∧ Code.byte operand = .ok (Code.literalCode operand) ∨
        ¬ l.IsAscii ∧ Code.byte operand = .error (.notAscii operand)) := by
  cases ha : ByteLiteral.announced operand with
  | false => exact .inl rfl
  | true =>
    right
    cases hr : ByteLiteral.read operand with
    | error cause =>
      refine .inl ⟨cause, ?_, ?_⟩
      · rw [Operation.constantSize, if_pos ha, hr]
        rfl
      · rw [Code.byte, hr]
    | ok l =>
      obtain ⟨rfl, hw⟩ := ByteLiteral.read_eq_ok_iff.mp hr
      refine .inr ⟨l, rfl, Operation.constantSize_text hw, ?_⟩
      by_cases hascii : l.IsAscii
      · exact .inl ⟨hascii, Code.byte_eq_ok_iff.mpr ⟨⟨l, rfl, hw, hascii⟩, rfl⟩⟩
      · exact .inr ⟨hascii, Code.byte_notAscii hw hascii⟩

/-- The code of an operand is two digits for each byte that is counted for it. -/
theorem constantSize_of_byte {operand code : Text} (h : Code.byte operand = .ok code) :
    code.length % 2 = 0 ∧ (∀ c ∈ code, c ∈ Hex.alphabet) ∧
      Operation.constantSize (some operand) = .ok (code.length / 2) := by
  obtain ⟨⟨l, rfl, hw, -⟩, rfl⟩ := Code.byte_eq_ok_iff.mp h
  have hlength := Code.length_literalCode hw
  refine ⟨by omega, ?_, ?_⟩
  · exact fun c hc => Hex.isDigit_iff.mp (Code.isDigit_of_mem_literalCode hw hc)
  · rw [Operation.constantSize_text hw, hlength, Nat.mul_div_cancel_left _ (by decide)]

/-- What has no size has no code, for the same cause. -/
theorem byte_of_constantSize {operand : Text} {cause : Cause}
    (h : Operation.constantSize (some operand) = .error cause) :
    Code.byte operand = .error cause := by
  rcases constant_cases operand with ha | ⟨cause', hs, hc⟩ | ⟨l, -, hs, -⟩
  · rw [(constant_unannounced ha).1] at h
    cases h
  · rw [hs] at h
    cases h
    exact hc
  · rw [hs] at h
    cases h

/-- What has a size and no code is not announced as a literal, or holds more than ASCII. -/
theorem constantSize_without_byte_iff {operand : Text} :
    (∃ n, Operation.constantSize (some operand) = .ok n) ∧
        (∃ cause, Code.byte operand = .error cause) ↔
      ByteLiteral.announced operand = false ∨
      ∃ l : ByteLiteral, operand = l.text ∧ ¬ l.IsAscii := by
  constructor
  · rintro ⟨⟨n, hn⟩, cause, hcause⟩
    rcases constant_cases operand with ha | ⟨cause', hs, -⟩ | ⟨l, hl, -, hcode⟩
    · exact .inl ha
    · rw [hs] at hn
      cases hn
    · rcases hcode with ⟨-, hok⟩ | ⟨hascii, -⟩
      · rw [hok] at hcause
        cases hcause
      · exact .inr ⟨l, hl, hascii⟩
  · rintro (ha | ⟨l, rfl, hascii⟩)
    · obtain ⟨hs, hc⟩ := constant_unannounced ha
      exact ⟨⟨_, hs⟩, _, hc⟩
    · -- digits are ASCII, so these are characters, and any will do for a size
      obtain ⟨body, rfl, -⟩ := ByteLiteral.not_isAscii_iff.mp hascii
      exact ⟨⟨_, Operation.constantSize_text trivial⟩, _, Code.byte_notAscii trivial hascii⟩

/-- The size and the code of a `BYTE` operand agree, whatever the operand. If it has a code, this is
    an even number of hex digits, and half of them is the size. If it has no size, it has no code,
    and for the same reason. It has a size and no code exactly if it starts with neither `C` nor `X`
    or is a literal of characters with one outside ASCII. -/
theorem byte_size_matches_code (operand : Text) (location : Option Location) :
    (∀ code, Code.byte operand = .ok code →
      code.length % 2 = 0 ∧ (∀ c ∈ code, c ∈ Hex.alphabet) ∧
      (Operation.directive .byte).size (some operand) = .ok (code.length / 2)) ∧
    (∀ fault, placed location ((Operation.directive .byte).size (some operand)) = .error fault →
      placed location (Code.byte operand) = .error fault) ∧
    ((∃ n, (Operation.directive .byte).size (some operand) = .ok n) ∧
        (∃ cause, Code.byte operand = .error cause) ↔
      (operand.head? ≠ some 'C' ∧ operand.head? ≠ some 'X') ∨
      ∃ body, operand = 'C' :: quote :: (body ++ [quote]) ∧ ∃ c ∈ body, 128 ≤ c.toNat) := by
  have hsize : (Operation.directive .byte).size (some operand) =
      Operation.constantSize (some operand) := rfl
  rw [hsize]
  refine ⟨fun code hcode => constantSize_of_byte hcode, ?_, ?_⟩
  · intro fault hfault
    cases hs : Operation.constantSize (some operand) with
    | ok n =>
      rw [hs] at hfault
      cases hfault
    | error cause =>
      rw [hs] at hfault
      cases hfault
      rw [byte_of_constantSize hs]
      rfl
  · have hliteral : (∃ l : ByteLiteral, operand = l.text ∧ ¬ l.IsAscii) ↔
        ∃ body, operand = 'C' :: quote :: (body ++ [quote]) ∧ ∃ c ∈ body, 128 ≤ c.toNat := by
      simp only [ByteLiteral.not_isAscii_iff]
      constructor
      · rintro ⟨_, hl, body, rfl, hout⟩
        exact ⟨body, hl, hout⟩
      · rintro ⟨body, hl, hout⟩
        exact ⟨.characters body, hl, body, rfl, hout⟩
    rw [constantSize_without_byte_iff, ByteLiteral.announced_eq_false_iff, hliteral]

/-- A quote in the body is a character like others; digits that are not in pairs are refused twice;
    and a letter outside ASCII has a size only, as has a name. -/
theorem byte_size_matches_code_assorted :
    (Code.byte "C'A'b'" = .ok "412762".toList ∧
      (Operation.directive .byte).size (some "C'A'b'".toList) = .ok 3) ∧
    placed none (Code.byte "X'0F1'") =
      .error { cause := .notANumber "0F1" .hexadecimal } ∧
    ((∃ n, (Operation.directive .byte).size (some "C'é'".toList) = .ok n) ∧
      ∃ cause, Code.byte "C'é'" = .error cause) ∧
    ((∃ n, (Operation.directive .byte).size (some "BUFFER".toList) = .ok n) ∧
      ∃ cause, Code.byte "BUFFER" = .error cause) := by
  have hquoted : Code.byte "C'A'b'" = .ok "412762".toList := by decide
  have hodd : placed none ((Operation.directive .byte).size (some "X'0F1'".toList)) =
      .error { cause := .notANumber "0F1" .hexadecimal } := by decide
  refine ⟨⟨hquoted, ?_⟩, ?_, ?_, ?_⟩
  · exact ((byte_size_matches_code "C'A'b'" none).1 _ hquoted).2.2
  · exact (byte_size_matches_code "X'0F1'" none).2.1 _ hodd
  · exact (byte_size_matches_code "C'é'" none).2.2.mpr (.inr ⟨['é'], rfl, 'é', by decide, by decide⟩)
  · exact (byte_size_matches_code "BUFFER" none).2.2.mpr (.inl ⟨by decide, by decide⟩)

end TwoPass
