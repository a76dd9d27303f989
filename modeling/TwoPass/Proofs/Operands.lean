import TwoPass.Assembly.Layout
import TwoPass.Proofs.Numerals
import TwoPass.Proofs.Reading

/-
  What the operands of a statement must look like for its line to be given an address
  (`Statement.Sizable`), and the address arithmetic that follows: `loadAddress` is where START
  puts the counter, `bytes` is what any other statement adds to it. `startAddress_sizable` and
  `next_sizable` are all that the two passes need to know about operands.
-/

namespace TwoPass

/-! ## Byte literals -/

namespace ByteLiteral

/-- A literal as it is written. -/
def text : ByteLiteral → Text
  | .characters body => 'C' :: Source.quote :: (body ++ [Source.quote])
  | .hex body => 'X' :: Source.quote :: (body ++ [Source.quote])

/-- Hex digits come in pairs; any characters will do. -/
def WellFormed : ByteLiteral → Prop
  | .characters _ => True
  | .hex body => body.length % 2 = 0 ∧ ∀ c ∈ body, Hex.isDigit c = true

theorem body?_eq_some_iff {t body : Text} :
    body? t = some body ↔ ∃ kind, t = kind :: Source.quote :: (body ++ [Source.quote]) := by
  constructor
  · intro h
    unfold body? at h
    split at h
    · rename_i kind mark rest
      split at h
      · rename_i hq
        obtain ⟨ys, rfl⟩ := List.getLast?_eq_some_iff.mp hq.2
        rw [List.dropLast_concat, Option.some.injEq] at h
        exact ⟨kind, by rw [hq.1, h]⟩
      · cases h
    · cases h
  · rintro ⟨kind, rfl⟩
    simp [body?]

theorem announced_text (l : ByteLiteral) : announced l.text = true := by
  cases l <;> simp [announced, text]

theorem announced_cases {t : Text} (h : announced t = true) :
    ∃ cs, t = 'C' :: cs ∨ t = 'X' :: cs := by
  unfold announced at h
  split at h
  · rename_i c cs
    simp only [Bool.decide_or, Bool.or_eq_true, decide_eq_true_eq] at h
    rcases h with rfl | rfl
    · exact ⟨cs, .inl rfl⟩
    · exact ⟨cs, .inr rfl⟩
  · cases h

theorem hexadecimal_map_eq_ok_iff {body : Text} {l : ByteLiteral} (hne : body ≠ []) :
    (Operand.hexadecimal body).map (fun _ => ByteLiteral.hex body) = .ok l ↔
      l = .hex body ∧ ∀ c ∈ body, Hex.isDigit c = true := by
  have hiff := Hex.isSome_read?_iff body
  unfold Operand.hexadecimal
  cases h : Hex.read? body with
  | none =>
    have hd : ¬ ∀ c ∈ body, Hex.isDigit c = true := by
      intro hd
      have := hiff.mpr ⟨hne, hd⟩
      rw [h] at this
      cases this
    simp [Except.map, hd]
  | some n =>
    have hd := (hiff.mp (by rw [h]; rfl)).2
    simp only [Except.map, Except.ok.injEq]
    exact ⟨fun he => ⟨he.symm, hd⟩, fun he => he.1.symm⟩

/-- What is read as a literal is one as it is written, and the other way round. -/
theorem read_eq_ok_iff {t : Text} {l : ByteLiteral} :
    read t = .ok l ↔ t = l.text ∧ l.WellFormed := by
  constructor
  · intro h
    unfold read at h
    split at h
    · cases h
    · rename_i ha
      split at h
      · cases h
      · rename_i body hb
        obtain ⟨kind, rfl⟩ := body?_eq_some_iff.mp hb
        split at h
        · rename_i hc
          cases h
          cases hc
          exact ⟨rfl, trivial⟩
        · rename_i hc
          -- the operand starts with C or X, and not with C
          obtain ⟨cs, hcs | hcs⟩ := announced_cases (by simpa using ha)
          · rw [hcs] at hc; exact absurd rfl hc
          · cases hcs
            split at h
            · cases h
            · rename_i hodd
              split at h
              · rename_i hnil
                cases h
                subst hnil
                exact ⟨rfl, rfl, fun c hc => absurd hc List.not_mem_nil⟩
              · rename_i hne
                obtain ⟨rfl, hd⟩ := (hexadecimal_map_eq_ok_iff hne).mp h
                exact ⟨rfl, by omega, hd⟩
  · rintro ⟨rfl, hw⟩
    cases l with
    | characters body =>
      have hb : body? (text (.characters body)) = some body := body?_eq_some_iff.mpr ⟨'C', rfl⟩
      unfold read
      rw [announced_text, hb]
      rfl
    | hex body =>
      have hb : body? (text (.hex body)) = some body := body?_eq_some_iff.mpr ⟨'X', rfl⟩
      unfold read
      rw [announced_text, hb]
      have hx : (text (.hex body)).head? ≠ some 'C' := by simp [text]
      have hodd : ¬ body.length % 2 = 1 := by have := hw.1; omega
      simp only [Bool.not_true, Bool.false_eq_true, if_false, hx, hodd]
      split
      · rfl
      · rename_i hne
        exact (hexadecimal_map_eq_ok_iff hne).mpr ⟨rfl, hw.2⟩

end ByteLiteral

/-! ## Sizes -/

theorem Operand.decimal_eq_ok_iff {t : Text} {v : Int} :
    decimal t = .ok v ↔ Decimal.Denotes t v := by
  rw [← Decimal.read_eq_number_iff]
  unfold decimal
  cases Decimal.read t <;> simp

theorem Operation.reservedCount_eq_ok_iff {d : Directive} {operand : Option Text} {n : Nat} :
    reservedCount d operand = .ok n ↔ ∃ t, operand = some t ∧ Decimal.Denotes t n := by
  cases operand with
  | none => simp [reservedCount]
  | some t =>
    simp only [Option.some.injEq, exists_eq_left', ← Operand.decimal_eq_ok_iff, reservedCount]
    cases Operand.decimal t with
    | error cause => simp
    | ok v =>
      simp only [Except.ok.injEq]
      by_cases hv : v < 0
      · simp only [hv, if_true, reduceCtorEq, false_iff]
        omega
      · simp only [hv, if_false, Except.ok.injEq]
        omega

theorem Operation.reservedCount_isOk_iff {d : Directive} {operand : Option Text} :
    (∃ n, reservedCount d operand = .ok n) ↔
      ∃ t v, operand = some t ∧ Decimal.Denotes t v ∧ 0 ≤ v := by
  constructor
  · rintro ⟨n, hn⟩
    obtain ⟨t, ht, hd⟩ := reservedCount_eq_ok_iff.mp hn
    exact ⟨t, n, ht, hd, Int.natCast_nonneg n⟩
  · rintro ⟨t, v, ht, hd, hv⟩
    refine ⟨v.toNat, reservedCount_eq_ok_iff.mpr ⟨t, ht, ?_⟩⟩
    rwa [Int.toNat_of_nonneg hv]

theorem Operation.constantSize_isOk_iff {operand : Option Text} :
    (∃ n, constantSize operand = .ok n) ↔
      ∀ t, operand = some t → ByteLiteral.announced t = true →
        ∃ l : ByteLiteral, t = l.text ∧ l.WellFormed := by
  cases operand with
  | none => simp [constantSize]
  | some t =>
    simp only [constantSize, Option.some.injEq, forall_eq', ← ByteLiteral.read_eq_ok_iff]
    by_cases ha : ByteLiteral.announced t = true
    · cases ByteLiteral.read t <;> simp [ha, Except.map]
    · simp [ha]

/-! ### Faults of operands are no phase faults -/

theorem Operand.decimal_error {t : Text} {cause : Cause} (h : decimal t = .error cause) :
    cause.category ≠ .phase := by
  unfold decimal at h
  split at h <;> cases h <;> simp [Cause.category]

theorem Operand.hexadecimal_error {t : Text} {cause : Cause} (h : hexadecimal t = .error cause) :
    cause.category ≠ .phase := by
  unfold hexadecimal at h
  split at h
  · cases h
  · cases h; simp [Cause.category]

theorem error_of_map {ε α β : Type} {x : Except ε α} {f : α → β} {e : ε}
    (h : x.map f = .error e) : x = .error e := by
  cases x with
  | ok a => cases h
  | error e' => cases h; rfl

theorem ByteLiteral.read_error {t : Text} {cause : Cause} (h : read t = .error cause) :
    cause.category ≠ .phase := by
  unfold read at h
  split at h
  · cases h; simp [Cause.category]
  · split at h
    · cases h; simp [Cause.category]
    · split at h
      · cases h
      · split at h
        · cases h; simp [Cause.category]
        · split at h
          · cases h
          · exact Operand.hexadecimal_error (error_of_map h)

theorem Operation.reservedCount_error {d : Directive} {operand : Option Text} {cause : Cause}
    (h : reservedCount d operand = .error cause) : cause.category ≠ .phase := by
  unfold reservedCount at h
  split at h
  · cases h; simp [Cause.category]
  · split at h
    · rename_i hd
      cases h
      exact Operand.decimal_error hd
    · split at h <;> cases h
      simp [Cause.category]

theorem Operation.constantSize_error {operand : Option Text} {cause : Cause}
    (h : constantSize operand = .error cause) : cause.category ≠ .phase := by
  unfold constantSize at h
  split at h
  · cases h
  · split at h
    · exact ByteLiteral.read_error (error_of_map h)
    · cases h

namespace Statement

/-- What a statement must be like for the line behind it to have an address. -/
def Sizable (st : Statement) : Prop :=
  match st.operation with
  | .directive .start => ∃ t, st.operand = some t ∧ t ≠ [] ∧ ∀ c ∈ t, Hex.isDigit c = true
  | .directive .reserveBytes => ∃ t n, st.operand = some t ∧ Decimal.Denotes t n ∧ 0 ≤ n
  | .directive .reserveWords => ∃ t n, st.operand = some t ∧ Decimal.Denotes t n ∧ 0 ≤ n
  | .directive .byte => ∀ t, st.operand = some t → ByteLiteral.announced t = true →
      ∃ l : ByteLiteral, t = l.text ∧ l.WellFormed
  | _ => True

/-- Where a START statement puts the counter. -/
def loadAddress (st : Statement) : Nat := (st.operand.bind Hex.read?).getD 0

/-- The bytes of a statement that has a size. -/
def bytes (st : Statement) : Nat := (st.operation.size st.operand).toOption.getD 0

theorem bytes_of_size {st : Statement} {n : Nat} (h : st.operation.size st.operand = .ok n) :
    st.bytes = n := by
  unfold bytes
  rw [h]
  rfl

theorem sizable_start_iff {st : Statement} (h : st.operation = .directive .start) :
    st.Sizable ↔ (st.operand.bind Hex.read?).isSome = true := by
  unfold Sizable
  rw [h]
  cases st.operand with
  | none => simp
  | some t => simp [Hex.isSome_read?_iff]

/-- The address of START, where its operand is hexadecimal. -/
theorem startAddress_sizable {st : Statement} (h : st.operation = .directive .start)
    (hs : st.Sizable) : st.startAddress = .ok (st.loadAddress : Int) := by
  rw [sizable_start_iff h] at hs
  unfold startAddress loadAddress
  cases ho : st.operand with
  | none => rw [ho] at hs; cases hs
  | some t =>
    rw [ho, Option.bind_some] at hs
    obtain ⟨n, hn⟩ := Option.isSome_iff_exists.mp hs
    simp [Operand.hexadecimal, hn, Except.map, placed]

theorem startAddress_unsizable {st : Statement} (h : st.operation = .directive .start)
    (hs : ¬ st.Sizable) : ∃ f, st.startAddress = .error f ∧ f.cause.category ≠ .phase := by
  rw [sizable_start_iff h] at hs
  unfold startAddress
  cases ho : st.operand with
  | none => exact ⟨_, rfl, by simp [Cause.category]⟩
  | some t =>
    rw [ho, Option.bind_some, Option.not_isSome_iff_eq_none] at hs
    refine ⟨{ cause := .notANumber t .hexadecimal, location := st.location }, ?_, ?_⟩
    · simp [Operand.hexadecimal, hs, Except.map, placed]
    · simp [Cause.category]

theorem size_isOk_iff {st : Statement} (h : st.operation ≠ .directive .start) :
    (∃ n, st.operation.size st.operand = .ok n) ↔ st.Sizable := by
  obtain ⟨label, operation, operand, location, text⟩ := st
  have fixed : ∀ n : Nat, (∃ m, (Except.ok n : Except Cause Nat) = .ok m) ↔ True :=
    fun n => ⟨fun _ => trivial, fun _ => ⟨n, rfl⟩⟩
  cases operation with
  | instruction m => exact fixed _
  | unknown name => exact fixed _
  | directive d =>
    cases d with
    | start => exact absurd rfl h
    | finish => exact fixed _
    | reserveRegister => exact fixed _
    | word => exact fixed _
    | exports => exact fixed _
    | byte => exact Operation.constantSize_isOk_iff
    | reserveBytes => exact Operation.reservedCount_isOk_iff
    | reserveWords =>
      refine Iff.trans ?_ (Operation.reservedCount_isOk_iff (d := .reserveWords))
      simp only [Operation.size]
      cases Operation.reservedCount .reserveWords operand <;> simp [Except.map]

theorem size_sizable {st : Statement} (h : st.operation ≠ .directive .start) (hs : st.Sizable) :
    st.operation.size st.operand = .ok st.bytes := by
  obtain ⟨n, hn⟩ := (size_isOk_iff h).mpr hs
  unfold bytes
  rw [hn]
  rfl

theorem size_error {st : Statement} {cause : Cause}
    (h : st.operation.size st.operand = .error cause) : cause.category ≠ .phase := by
  unfold Operation.size at h
  split at h
  · cases h
  · exact Operation.reservedCount_error h
  · exact Operation.reservedCount_error (error_of_map h)
  · exact Operation.constantSize_error h
  · cases h

/-- The counter behind a statement, where its operand allows: the width that the kind of its line
    counts ahead is given back. -/
theorem next_sizable {st : Statement} (h : st.operation ≠ .directive .start) (hs : st.Sizable)
    (kind : LineKind) (counter : Int) : st.next kind counter = .ok (counter + st.bytes) := by
  unfold next Operation.advance
  rw [size_sizable h hs]
  show Except.ok (counter + kind.width + (st.bytes : Int) - kind.width) = _
  congr 1
  omega

theorem next_unsizable {st : Statement} (h : st.operation ≠ .directive .start) (hs : ¬ st.Sizable)
    (kind : LineKind) (counter : Int) :
    ∃ f, st.next kind counter = .error f ∧ f.cause.category ≠ .phase := by
  unfold next Operation.advance
  cases hn : st.operation.size st.operand with
  | ok n => exact absurd ((size_isOk_iff h).mp ⟨n, hn⟩) hs
  | error cause => exact ⟨{ cause, location := st.location }, rfl, size_error hn⟩

end Statement

end TwoPass
