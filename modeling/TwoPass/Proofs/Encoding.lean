import TwoPass.Assembly.Code
import TwoPass.Proofs.FirstPass

/-
  The code of a statement, said apart from the way it is found. `Statement.code` is the code,
  given what address each name stands for; `Statement.Encodable` says which statements have one.
  `encode_cases` ties both to `Statement.encode`: it gives this code exactly if the statement is
  `Encodable` and, where undefined names are rejected, its operand is defined (`Resolved`).
-/

namespace TwoPass

/-! ## Constants -/

namespace ByteLiteral

def IsAscii : ByteLiteral → Prop
  | .characters body => ∀ c ∈ body, c.toNat < 128
  | .hex _ => True

theorem code?_eq_some_iff {l : ByteLiteral} {code : Text} : l.code? = some code ↔ l.IsAscii ∧
    code = match l with
      | .characters body => body.flatMap fun c => Hex.digits 2 c.toNat
      | .hex body => body := by
  cases l with
  | hex body => simp [code?, IsAscii, eq_comm]
  | characters body =>
    simp only [code?, IsAscii]
    by_cases ha : ∀ c ∈ body, c.toNat < 128
    · have hall : (body.all fun c => decide (c.toNat < 128)) = true := by simpa using ha
      have hmap : (body.flatMap fun c => Hex.padded 2 c.toNat) =
          body.flatMap fun c => Hex.digits 2 c.toNat := by
        have : ∀ c ∈ body, Hex.padded 2 c.toNat = Hex.digits 2 c.toNat := by
          intro c hc
          have := ha c hc
          exact Hex.padded_of_lt (by decide) (by omega)
        simp only [List.flatMap, List.map_congr_left this]
      rw [if_pos hall, hmap, Option.some.injEq]
      exact ⟨fun h => ⟨ha, h.symm⟩, fun h => h.2.symm⟩
    · have hall : ¬ (body.all fun c => decide (c.toNat < 128)) = true := by simpa using ha
      rw [if_neg hall]
      exact ⟨fun h => absurd h (Option.some_ne_none code).symm, fun h => absurd h.1 ha⟩

end ByteLiteral

namespace Code

/-- The value of a decimal operand. -/
def wordValue : Text → Int
  | '-' :: ds => -(Decimal.value ds : Int)
  | ds => Decimal.value ds

/-- The code of a literal: two hex digits for each character, or the digits it is written in. -/
def literalCode : Text → Text
  | 'C' :: _ :: rest => rest.dropLast.flatMap fun c => Hex.digits 2 c.toNat
  | _ :: _ :: rest => rest.dropLast
  | _ => []

/-- A decimal number that a word can hold, as a signed or an unsigned one. -/
def IsWord (t : Text) : Prop := ∃ v, Decimal.Denotes t v ∧ -2 ^ 23 ≤ v ∧ v ≤ 2 ^ 24 - 1

/-- A literal of ASCII characters or of hex digits. -/
def IsConstant (t : Text) : Prop := ∃ l : ByteLiteral, t = l.text ∧ l.WellFormed ∧ l.IsAscii

theorem wordValue_of_denotes {t : Text} {v : Int} (h : Decimal.Denotes t v) : wordValue t = v := by
  cases h with
  | negative hne hl hd => rfl
  | plain hne hl hd =>
    unfold wordValue
    split
    · exact absurd rfl (Decimal.head?_ne_minus hd)
    · rfl

/-- A word is its value as 24 bits, six hex digits. -/
theorem word_eq_ok_iff {t code : Text} : word t = .ok code ↔
    IsWord t ∧ code = Hex.digits 6 (wordValue t % 2 ^ 24).toNat := by
  unfold word IsWord
  cases hd : Operand.decimal t with
  | error cause =>
    simp only [reduceCtorEq, false_iff]
    rintro ⟨⟨v, hv, -⟩, -⟩
    rw [Operand.decimal_eq_ok_iff.mpr hv] at hd
    cases hd
  | ok v =>
    have hmin : wordMin = -2 ^ 23 := rfl
    have hcount : wordCount = 2 ^ 24 := rfl
    have hden := Operand.decimal_eq_ok_iff.mp hd
    have hrange : (∃ w, Decimal.Denotes t w ∧ -2 ^ 23 ≤ w ∧ w ≤ 2 ^ 24 - 1) ↔
        wordMin ≤ v ∧ v < wordCount := by
      constructor
      · rintro ⟨w, hw, hlow, hhigh⟩
        have hsame := hd.symm.trans (Operand.decimal_eq_ok_iff.mpr hw)
        injection hsame with hsame
        omega
      · intro hv
        exact ⟨v, hden, by omega, by omega⟩
    rw [hrange, wordValue_of_denotes hden]
    dsimp only
    by_cases hv : wordMin ≤ v ∧ v < wordCount
    · have hmod : (v % wordCount).toNat < 16 ^ 6 := by rw [hcount]; omega
      rw [if_pos hv, Except.ok.injEq, Hex.padded_of_lt (by decide) hmod, hcount]
      exact ⟨fun h => ⟨hv, h.symm⟩, fun h => h.2.symm⟩
    · rw [if_neg hv]
      exact ⟨nofun, fun h => absurd h.1 hv⟩

theorem word_error {t : Text} {cause : Cause} (h : word t = .error cause) :
    cause.category ≠ .phase := by
  unfold word at h
  split at h
  · rename_i hd
    cases h
    exact Operand.decimal_error hd
  · split at h
    · cases h
    · cases h; simp [Cause.category]

theorem literalCode_text (l : ByteLiteral) : literalCode l.text = match l with
    | .characters body => body.flatMap fun c => Hex.digits 2 c.toNat
    | .hex body => body := by
  cases l <;> simp [ByteLiteral.text, literalCode]

/-- The code of a literal has two digits for each of its bytes. -/
theorem length_literalCode {l : ByteLiteral} (h : l.WellFormed) :
    (literalCode l.text).length = 2 * l.size := by
  rw [literalCode_text]
  cases l with
  | characters body =>
    rw [List.length_flatMap]
    simp only [Hex.length_digits, List.map_const', List.sum_replicate_nat, ByteLiteral.size]
    omega
  | hex body =>
    have heven := h.1
    dsimp only [ByteLiteral.size]
    omega

theorem isDigit_of_mem_literalCode {l : ByteLiteral} (h : l.WellFormed) {c : Char}
    (hc : c ∈ literalCode l.text) : Hex.isDigit c = true := by
  rw [literalCode_text] at hc
  cases l with
  | characters body =>
    obtain ⟨a, -, ha⟩ := List.mem_flatMap.mp hc
    exact Hex.isDigit_of_mem_digits ha
  | hex body => exact h.2 c hc

theorem byte_eq_ok_iff {t code : Text} : byte t = .ok code ↔
    IsConstant t ∧ code = literalCode t := by
  unfold byte
  cases hr : ByteLiteral.read t with
  | error cause =>
    simp only [reduceCtorEq, false_iff]
    rintro ⟨⟨l, ht, hw, -⟩, -⟩
    rw [ByteLiteral.read_eq_ok_iff.mpr ⟨ht, hw⟩] at hr
    cases hr
  | ok l =>
    obtain ⟨ht, hw⟩ := ByteLiteral.read_eq_ok_iff.mp hr
    have hl := literalCode_text l
    rw [← ht] at hl
    constructor
    · intro h
      simp only at h
      split at h
      · rename_i code' hc
        cases h
        obtain ⟨ha, rfl⟩ := ByteLiteral.code?_eq_some_iff.mp hc
        exact ⟨⟨l, ht, hw, ha⟩, hl.symm⟩
      · cases h
    · rintro ⟨⟨l', ht', hw', ha⟩, rfl⟩
      have hsame := hr.symm.trans (ByteLiteral.read_eq_ok_iff.mpr ⟨ht', hw'⟩)
      cases hsame
      have hc := ByteLiteral.code?_eq_some_iff.mpr ⟨ha, hl⟩
      simp only [hc]

theorem byte_error {t : Text} {cause : Cause} (h : byte t = .error cause) :
    cause.category ≠ .phase := by
  unfold byte at h
  split at h
  · rename_i hd
    cases h
    exact ByteLiteral.read_error hd
  · split at h
    · cases h
    · cases h; simp [Cause.category]

end Code

/-! ## Statements -/

namespace Statement

/-- The code of a statement, when a name stands for the address that `address` gives it. -/
def code (address : Text → Nat) (st : Statement) : Text :=
  match st.operation with
  | .directive .word => Hex.digits 6 (Code.wordValue (st.operand.getD []) % 2 ^ 24).toNat
  | .directive .byte => Code.literalCode (st.operand.getD [])
  | .directive _ => []
  | .instruction .rsub => "4C0000"
  | .instruction m => Hex.digits 2 m.opcode ++ Hex.padded 4 (address (st.operand.getD []))
  | .unknown _ => []

/-- The name by which the code of an instruction is to be adjusted. -/
def relocated (st : Statement) : Option Text :=
  match st.operation with
  | .instruction m => if m = .rsub then none else st.operand
  | _ => none

theorem relocated_eq_some_iff {st : Statement} {name : Text} : st.relocated = some name ↔
    ∃ m, st.operation = .instruction m ∧ m ≠ .rsub ∧ st.operand = some name := by
  unfold relocated
  cases st.operation with
  | instruction m => by_cases hm : m = .rsub <;> simp [hm]
  | _ => simp

/-- What a statement before END must be like. The directives without a code need nothing. -/
def Encodable (st : Statement) : Prop :=
  match st.operation with
  | .directive .word => ∃ t, st.operand = some t ∧ t.length ≤ 60 ∧ Code.IsWord t
  | .directive .byte => ∃ t, st.operand = some t ∧ t.length ≤ 60 ∧ Code.IsConstant t
  | .directive _ => True
  | .instruction m => m ≠ .rsub → ∃ t, st.operand = some t
  | .unknown _ => False

/-- Where undefined names are rejected, the table has the name by which the code is adjusted. -/
def Resolved (options : Options) (symbols : SymbolTable) (st : Statement) : Prop :=
  options.rejectUndefined = true → ∀ name, st.relocated = some name → symbols.contains name = true

theorem relocation?_eq {st : Statement} (h : st.Encodable) : st.relocation? = st.relocated := by
  unfold relocation? relocated
  unfold Encodable at h
  cases ho : st.operation with
  | directive d => rfl
  | unknown name => rw [ho] at h; exact absurd h id
  | instruction m =>
    by_cases hm : m = .rsub <;> simp [Operation.takesOperand, Mnemonic.takesOperand, hm]

theorem constantOperand_eq_ok_iff {st : Statement} {d : Directive} {t : Text} :
    st.constantOperand d = .ok t ↔ st.operand = some t ∧ t.length ≤ 60 := by
  unfold constantOperand
  cases st.operand with
  | none => simp
  | some o =>
    have hlim : Code.operandLimit = 60 := rfl
    by_cases hl : Code.operandLimit < o.length
    · simp only [hl, if_true, reduceCtorEq, Option.some.injEq, false_iff]
      rintro ⟨rfl, hle⟩
      omega
    · simp only [hl, if_false, Except.ok.injEq, Option.some.injEq]
      exact ⟨fun h => ⟨h, by rw [← h]; omega⟩, fun h => h.1⟩

theorem constantOperand_error {st : Statement} {d : Directive} {f : Fault}
    (h : st.constantOperand d = .error f) : f.cause.category ≠ .phase := by
  unfold constantOperand at h
  split at h
  · cases h; simp [fault, Cause.category]
  · split at h
    · cases h; simp [fault, Cause.category]
    · cases h

variable {symbols : SymbolTable} {address : Text → Nat}

/-- The address an instruction is given: that of its operand, or none for want of an operand or,
    where this is rejected, of a symbol. -/
theorem target_cases (st : Statement) (m : Mnemonic) (options : Options) (location : Location)
    (ha : ∀ name, symbols.addressOf name 0 = address name) :
    (∃ notices, st.target options location symbols m =
        .ok (if m = .rsub then 0 else (address (st.operand.getD []) : Int), notices) ∧
      (m ≠ .rsub → ∃ t, st.operand = some t ∧
        (options.rejectUndefined = true → symbols.contains t = true))) ∨
    ∃ f, st.target options location symbols m = .error f ∧ f.cause.category ≠ .phase ∧
      ¬ (m ≠ .rsub → ∃ t, st.operand = some t ∧
        (options.rejectUndefined = true → symbols.contains t = true)) := by
  unfold target
  by_cases hm : m = .rsub
  · subst hm
    exact .inl ⟨[], rfl, fun h => absurd rfl h⟩
  · have ht : m.takesOperand = true := by simp [Mnemonic.takesOperand, hm]
    rw [if_pos ht]
    cases ho : st.operand with
    | none =>
      refine .inr ⟨_, rfl, by simp [fault, Cause.category], fun h => ?_⟩
      obtain ⟨t, hn, -⟩ := h hm
      cases hn
    | some t =>
      have hat := ha t
      unfold SymbolTable.addressOf at hat
      cases hf : symbols.find? t with
      | some symbol =>
        have hc : symbols.contains t = true := by
          unfold SymbolTable.contains
          rw [hf]
          rfl
        rw [hf] at hat
        refine .inl ⟨[], ?_, fun _ => ⟨t, rfl, fun _ => hc⟩⟩
        simp only [hf, if_neg hm, Option.getD_some, ← hat]
      | none =>
        rw [hf] at hat
        simp only [hf]
        cases hr : options.rejectUndefined with
        | false =>
          refine .inl ⟨[.undefinedAsZero location t], ?_, fun _ => ⟨t, rfl, fun h => by cases h⟩⟩
          simp only [Bool.false_eq_true, if_false, if_neg hm, Option.getD_some, ← hat]
        | true =>
          refine .inr ⟨_, rfl, by simp [fault, Cause.category], fun h => ?_⟩
          obtain ⟨t', ht', hc⟩ := h hm
          have hfound := hc rfl
          rw [SymbolTable.contains, ← Option.some.inj ht', hf] at hfound
          cases hfound

/-- The code of a constant by the encoder of its kind. -/
def constantCode (st : Statement) (d : Directive) (encoder : Text → Except Cause Text) :
    Except Fault (Text × List Notice) := do
  let operand ← st.constantOperand d
  let code ← placed st.location (encoder operand)
  return (code, [])

/-- A constant has a code if its operand is short enough and the encoder takes it. -/
theorem constantCode_cases (st : Statement) (d : Directive) {encoder : Text → Except Cause Text}
    {P : Text → Prop} {f : Text → Text} (hok : ∀ {t code}, encoder t = .ok code ↔ P t ∧ code = f t)
    (herr : ∀ {t cause}, encoder t = .error cause → cause.category ≠ .phase) :
    (st.constantCode d encoder = .ok (f (st.operand.getD []), []) ∧
      ∃ t, st.operand = some t ∧ t.length ≤ 60 ∧ P t) ∨
    ∃ e, st.constantCode d encoder = .error e ∧ e.cause.category ≠ .phase ∧
      ¬ ∃ t, st.operand = some t ∧ t.length ≤ 60 ∧ P t := by
  unfold constantCode
  cases hc : st.constantOperand d with
  | error e =>
    refine .inr ⟨e, rfl, constantOperand_error hc, ?_⟩
    rintro ⟨t, ho, hl, -⟩
    rw [constantOperand_eq_ok_iff.mpr ⟨ho, hl⟩] at hc
    cases hc
  | ok t =>
    obtain ⟨ho, hl⟩ := constantOperand_eq_ok_iff.mp hc
    rw [ok_bind, ho, Option.getD_some]
    cases he : encoder t with
    | ok code =>
      obtain ⟨hP, rfl⟩ := hok.mp he
      exact .inl ⟨rfl, t, rfl, hl, hP⟩
    | error cause =>
      refine .inr ⟨_, rfl, herr he, ?_⟩
      rintro ⟨t', ht, -, hP⟩
      rw [Option.some.inj ht, hok.mpr ⟨hP, rfl⟩] at he
      cases he

theorem instruction_eq (m : Mnemonic) (n : Nat) :
    Code.instruction m.opcode n = Hex.digits 2 m.opcode ++ Hex.padded 4 n := by
  have hop : m.opcode < 16 ^ 2 := by cases m <;> decide
  unfold Code.instruction
  rw [Hex.signed_natCast, Hex.signed_natCast, Hex.padded_of_lt (by decide) hop]

theorem code_instruction {st : Statement} {m : Mnemonic} (ho : st.operation = .instruction m) :
    st.code address = Code.instruction m.opcode
      (if m = .rsub then 0 else (address (st.operand.getD []) : Int)) := by
  unfold code
  rw [ho]
  by_cases hm : m = .rsub
  · rw [hm, if_pos rfl]
    have : "4C0000".toList = Code.instruction Mnemonic.rsub.opcode 0 := by decide
    exact this
  · rw [if_neg hm, instruction_eq]
    split
    all_goals simp_all

theorem resolved_of_relocated {st : Statement} (h : st.relocated = none) (options : Options)
    (symbols : SymbolTable) : st.Resolved options symbols := by
  intro _ name hname
  rw [h] at hname
  cases hname

/-- An instruction can be encoded if it has an operand, or is the one that takes none. -/
theorem encodable_instruction_iff {st : Statement} {m : Mnemonic}
    (ho : st.operation = .instruction m) (options : Options) (symbols : SymbolTable) :
    st.Encodable ∧ st.Resolved options symbols ↔ (m ≠ .rsub → ∃ t, st.operand = some t ∧
      (options.rejectUndefined = true → symbols.contains t = true)) := by
  unfold Encodable Resolved relocated
  rw [ho]
  by_cases hm : m = .rsub
  · simp [hm]
  · simp only [if_neg hm]
    constructor
    · rintro ⟨hen, hres⟩ -
      obtain ⟨t, ht⟩ := hen hm
      exact ⟨t, ht, fun hu => hres hu t ht⟩
    · intro h
      obtain ⟨t, ht, hc⟩ := h hm
      refine ⟨fun _ => ⟨t, ht⟩, fun hu name hname => ?_⟩
      rw [← Option.some.inj (ht.symm.trans hname)]
      exact hc hu

/-- An instruction is two digits of opcode and an address. -/
theorem code_instruction_padded {st : Statement} {m : Mnemonic}
    (ho : st.operation = .instruction m) : st.code address = Hex.digits 2 m.opcode ++
      Hex.padded 4 (if m = .rsub then 0 else address (st.operand.getD [])) := by
  have hfield : (if m = .rsub then 0 else (address (st.operand.getD []) : Int)) =
      ((if m = .rsub then 0 else address (st.operand.getD []) : Nat) : Int) := by
    split <;> rfl
  rw [code_instruction ho, hfield, instruction_eq]

/-- The address has four digits, if the addresses keep to them. -/
theorem code_instruction_digits {st : Statement} {m : Mnemonic} (ho : st.operation = .instruction m)
    (ha : ∀ name, address name < 16 ^ 4) : st.code address = Hex.digits 2 m.opcode ++
      Hex.digits 4 (if m = .rsub then 0 else address (st.operand.getD [])) := by
  have hlt : (if m = .rsub then 0 else address (st.operand.getD [])) < 16 ^ 4 := by
    split
    · decide
    · exact ha _
  rw [code_instruction_padded ho, Hex.padded_of_lt (by decide) hlt]

theorem code_instruction_ne_nil {st : Statement} {m : Mnemonic}
    (ho : st.operation = .instruction m) : st.code address ≠ [] := by
  intro hnil
  have hlength := congrArg List.length hnil
  rw [code_instruction_padded ho, List.length_append, Hex.length_digits, List.length_nil] at hlength
  omega

theorem code_constant {st : Statement} (h : ∀ m, st.operation ≠ .instruction m)
    (address₁ address₂ : Text → Nat) : st.code address₁ = st.code address₂ := by
  cases ho : st.operation with
  | instruction m => exact absurd ho (h m)
  | unknown name => rw [code, code, ho]
  | directive d => cases d <;> rw [code, code, ho]

/-- Whether there is a code does not depend on the addresses. -/
theorem code_eq_nil_iff (st : Statement) (address₁ address₂ : Text → Nat) :
    st.code address₁ = [] ↔ st.code address₂ = [] := by
  by_cases h : ∃ m, st.operation = .instruction m
  · obtain ⟨m, ho⟩ := h
    exact iff_of_false (code_instruction_ne_nil ho) (code_instruction_ne_nil ho)
  · rw [code_constant (not_exists.mp h) address₁ address₂]

/-- A code depends on the address of the name by which it is adjusted, if on any. -/
theorem code_eq_iff {st : Statement} {address₁ address₂ : Text → Nat} (he : st.Encodable) :
    st.code address₁ = st.code address₂ ↔
      ∀ name, st.relocated = some name → address₁ name = address₂ name := by
  by_cases hi : ∃ m, st.operation = .instruction m ∧ m ≠ .rsub
  · obtain ⟨m, ho, hm⟩ := hi
    rw [Encodable, ho] at he
    obtain ⟨t, ht⟩ := he hm
    have hr : st.relocated = some t := relocated_eq_some_iff.mpr ⟨m, ho, hm, ht⟩
    rw [code_instruction_padded ho, code_instruction_padded ho, if_neg hm, if_neg hm, ht,
      Option.getD_some, List.append_cancel_left_eq, Hex.padded_inj, hr]
    simp
  · have hsame : st.code address₁ = st.code address₂ := by
      cases ho : st.operation with
      | instruction m =>
        have hm : m = .rsub := Classical.byContradiction fun hm => hi ⟨m, ho, hm⟩
        rw [code_instruction_padded ho, code_instruction_padded ho, if_pos hm, if_pos hm]
      | _ => exact code_constant (by rw [ho]; nofun) address₁ address₂
    refine iff_of_true hsame fun name hname => ?_
    obtain ⟨m, ho, hm, -⟩ := relocated_eq_some_iff.mp hname
    exact absurd ⟨m, ho, hm⟩ hi

/-- What encoding a statement comes to: its code, or a failure, which is no phase fault. -/
theorem encode_cases (st : Statement) (options : Options) (location : Location)
    (ha : ∀ name, symbols.addressOf name 0 = address name) :
    (∃ notices, st.encode options location symbols = .ok (st.code address, notices) ∧
      st.Encodable ∧ st.Resolved options symbols) ∨
    ∃ f, st.encode options location symbols = .error f ∧ f.cause.category ≠ .phase ∧
      ¬ (st.Encodable ∧ st.Resolved options symbols) := by
  cases ho : st.operation with
  | unknown name =>
    have he : ¬ st.Encodable := by rw [Encodable, ho]; exact id
    refine .inr ⟨st.fault (.unknownInstruction name), ?_, ?_, fun h => he h.1⟩
    · simp only [encode, ho]
    · simp [fault, Cause.category]
  | instruction m =>
    rw [code_instruction ho, encodable_instruction_iff ho]
    simp only [encode, ho]
    rcases target_cases st m options location ha with ⟨notices, he, hop⟩ | ⟨f, he, hf, hop⟩
    · rw [he]
      exact .inl ⟨notices, rfl, hop⟩
    · rw [he]
      exact .inr ⟨f, rfl, hf, hop⟩
  | directive d =>
    have hres : st.Resolved options symbols :=
      resolved_of_relocated (by rw [relocated, ho]) options symbols
    cases d with
    | word =>
      have hcode : st.encode options location symbols = st.constantCode .word Code.word := by
        simp only [encode, ho, constantCode]
      have hen : st.Encodable = ∃ t, st.operand = some t ∧ t.length ≤ 60 ∧ Code.IsWord t := by
        rw [Encodable, ho]
      rw [hcode, hen, code, ho]
      rcases constantCode_cases st .word Code.word_eq_ok_iff Code.word_error with h | ⟨f, h⟩
      · exact .inl ⟨[], h.1, h.2, hres⟩
      · exact .inr ⟨f, h.1, h.2.1, fun hboth => h.2.2 hboth.1⟩
    | byte =>
      have hcode : st.encode options location symbols = st.constantCode .byte Code.byte := by
        simp only [encode, ho, constantCode]
      have hen : st.Encodable = ∃ t, st.operand = some t ∧ t.length ≤ 60 ∧ Code.IsConstant t := by
        rw [Encodable, ho]
      rw [hcode, hen, code, ho]
      rcases constantCode_cases st .byte Code.byte_eq_ok_iff Code.byte_error with h | ⟨f, h⟩
      · exact .inl ⟨[], h.1, h.2, hres⟩
      · exact .inr ⟨f, h.1, h.2.1, fun hboth => h.2.2 hboth.1⟩
    | _ =>
      refine .inl ⟨[], ?_, ?_, hres⟩
      · simp only [encode, code, ho]
      · simp only [Encodable, ho]

end Statement

end TwoPass
