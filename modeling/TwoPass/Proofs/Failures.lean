import TwoPass.Proofs.SecondPass
import TwoPass.Session

/-
  How assembling can fail. Every fault is an assembler error but for one: a reservation whose count
  has more digits than are converted. `FailsOnly` says what the failures of a computation are like,
  and is kept by sequencing, so both passes are followed part by part. Only the first pass meets
  such a count (`layOut_failsOnly`), and it does so exactly where it `MeetsOverlong`: a count that
  it has measured does not stop the second pass, and the operand of a word is too short to be one.
  `assembleTextOnce_failures` puts both together.
-/

namespace TwoPass

open Source

/-! ## What failures are like -/

/-- Every failure of a computation is as `p` says. -/
def FailsOnly {ε α : Type} (p : ε → Prop) (x : Except ε α) : Prop := ∀ e, x = .error e → p e

namespace FailsOnly

variable {ε α β : Type} {p : ε → Prop}

theorem ok (a : α) : FailsOnly p (.ok a) := nofun

theorem error {e : ε} (h : p e) : FailsOnly p (.error e : Except ε α) := by
  intro e' he
  cases he
  exact h

theorem imp {q : ε → Prop} {x : Except ε α} (h : FailsOnly p x) (hpq : ∀ e, p e → q e) :
    FailsOnly q x := fun e he => hpq e (h e he)

theorem map {x : Except ε α} (h : FailsOnly p x) (f : α → β) : FailsOnly p (x.map f) :=
  fun e he => h e (error_of_map he)

theorem bind {x : Except ε α} {f : α → Except ε β} (hx : FailsOnly p x)
    (hf : ∀ a, x = .ok a → FailsOnly p (f a)) : FailsOnly p (x >>= f) := by
  intro e he
  cases x with
  | error e' =>
    cases he
    exact hx e rfl
  | ok a => exact hf a rfl e he

theorem ite {c : Prop} [Decidable c] {x y : Except ε α} (hx : c → FailsOnly p x)
    (hy : ¬ c → FailsOnly p y) : FailsOnly p (if c then x else y) := by
  by_cases hc : c
  · rw [if_pos hc]
    exact hx hc
  · rw [if_neg hc]
    exact hy hc

/-- A cause is no other for its place. -/
theorem placed {p : Cause → Prop} {x : Except Cause α} (h : FailsOnly p x)
    (location : Option Location) : FailsOnly (fun f => p f.cause) (TwoPass.placed location x) := by
  cases x with
  | ok a => exact .ok a
  | error cause => exact .error (h cause rfl)

theorem stopScan {p : Fault → Prop} {x : Except Fault α} (h : FailsOnly p x) (s : Scan) :
    FailsOnly (fun i => p i.fault) (s.stop x) := by
  cases x with
  | ok a => exact .ok a
  | error fault => exact .error (h fault rfl)

theorem stopGeneration {p : Fault → Prop} {x : Except Fault α} (h : FailsOnly p x)
    (g : Generation) : FailsOnly (fun b => p b.fault) (g.stop x) := by
  cases x with
  | ok a => exact .ok a
  | error fault => exact .error (h fault rfl)

end FailsOnly

/-- A run stops at the first element that does not let it pass. -/
theorem foldlM_eq_error_iff {ε α σ : Type} {f : σ → α → Except ε σ} {s : σ} {xs : List α} {e : ε} :
    xs.foldlM f s = .error e ↔ ∃ before x after s', xs = before ++ x :: after ∧
      before.foldlM f s = .ok s' ∧ f s' x = .error e := by
  induction xs generalizing s with
  | nil =>
    refine iff_of_false nofun ?_
    rintro ⟨before, x, after, s', hxs, -⟩
    exact List.append_ne_nil_of_right_ne_nil before (List.cons_ne_nil x after) hxs.symm
  | cons y ys ih =>
    rw [List.foldlM_cons]
    cases hy : f s y with
    | error e' =>
      constructor
      · intro h
        exact ⟨[], y, ys, s, rfl, rfl, hy.trans h⟩
      · rintro ⟨before, x, after, s', hxs, hbefore, hx⟩
        cases before with
        | nil =>
          cases hxs
          cases hbefore
          exact hy.symm.trans hx
        | cons z zs =>
          cases hxs
          rw [List.foldlM_cons, hy] at hbefore
          cases hbefore
    | ok s₁ =>
      rw [ok_bind, ih]
      constructor
      · rintro ⟨before, x, after, s', rfl, hbefore, hx⟩
        refine ⟨y :: before, x, after, s', rfl, ?_, hx⟩
        rw [List.foldlM_cons, hy]
        exact hbefore
      · rintro ⟨before, x, after, s', hxs, hbefore, hx⟩
        cases before with
        | nil =>
          cases hxs
          cases hbefore
          rw [hy] at hx
          cases hx
        | cons z zs =>
          cases hxs
          rw [List.foldlM_cons, hy] at hbefore
          exact ⟨zs, x, after, s', rfl, hbefore, hx⟩

/-! ## Operands -/

namespace Cause

/-- An assembler error, or too many digits in a count for which `p` holds. -/
def Expected (p : Nat → Prop) (c : Cause) : Prop :=
  c.isDiagnosed = true ∨ ∃ n, c = .tooManyDigits n ∧ p n

theorem expected_iff_of_none {p : Nat → Prop} (h : ∀ n, ¬ p n) (c : Cause) :
    c.Expected p ↔ c.isDiagnosed = true :=
  or_iff_left fun ⟨n, _, hn⟩ => h n hn

theorem isDiagnosed_of_category {c : Cause} (h : c.category ≠ .general) : c.isDiagnosed = true := by
  cases c <;> first | rfl | exact absurd rfl h

end Cause

theorem Operand.decimal_failsOnly (t : Text) :
    FailsOnly (Cause.Expected (Decimal.Overlong t)) (decimal t) := by
  unfold decimal
  cases hr : Decimal.read t with
  | number n => exact .ok n
  | malformed => exact .error (.inl rfl)
  | tooLong n => exact .error (.inr ⟨n, rfl, Decimal.read_eq_tooLong_iff.mp hr⟩)

theorem Operand.decimal_overlong {t : Text} {n : Nat} (h : Decimal.Overlong t n) :
    decimal t = .error (.tooManyDigits n) := by
  unfold decimal
  rw [Decimal.read_eq_tooLong_iff.mpr h]

theorem Operand.hexadecimal_failsOnly (t : Text) :
    FailsOnly (fun c => c.isDiagnosed = true) (hexadecimal t) := by
  unfold hexadecimal
  cases Hex.read? t with
  | none => exact .error rfl
  | some n => exact .ok n

theorem ByteLiteral.read_failsOnly (t : Text) :
    FailsOnly (fun c => c.isDiagnosed = true) (read t) := by
  unfold read
  refine .ite (fun _ => .error rfl) fun _ => ?_
  cases body? t with
  | none => exact .error rfl
  | some body =>
    refine .ite (fun _ => .ok _) fun _ => .ite (fun _ => .error rfl) fun _ => ?_
    exact .ite (fun _ => .ok _) fun _ => (Operand.hexadecimal_failsOnly body).map _

namespace Statement

/-- A reservation whose count has `n` digits, more than are converted. -/
def Overlong (st : Statement) (n : Nat) : Prop :=
  (st.operation = .directive .reserveBytes ∨ st.operation = .directive .reserveWords) ∧
    ∃ t, st.operand = some t ∧ Decimal.Overlong t n

variable {st : Statement} {n : Nat}

theorem reservedCount_failsOnly (d : Directive) (operand : Option Text) :
    FailsOnly (Cause.Expected fun n => ∃ t, operand = some t ∧ Decimal.Overlong t n)
      (Operation.reservedCount d operand) := by
  unfold Operation.reservedCount
  cases operand with
  | none => exact .error (.inl rfl)
  | some t =>
    dsimp only
    cases hd : Operand.decimal t with
    | error cause =>
      refine .error ?_
      rcases Operand.decimal_failsOnly t cause hd with h | ⟨n, hn, hlong⟩
      · exact .inl h
      · exact .inr ⟨n, hn, t, rfl, hlong⟩
    | ok v => exact .ite (fun _ => .error (.inl rfl)) fun _ => .ok _

theorem size_failsOnly (st : Statement) :
    FailsOnly (Cause.Expected st.Overlong) (st.operation.size st.operand) := by
  have hcount : ∀ d, (st.operation = .directive .reserveBytes ∨
      st.operation = .directive .reserveWords) →
      FailsOnly (Cause.Expected st.Overlong) (Operation.reservedCount d st.operand) := by
    intro d ho
    refine (reservedCount_failsOnly d st.operand).imp fun c hc => ?_
    exact hc.imp_right fun ⟨n, hn, hlong⟩ => ⟨n, hn, ho, hlong⟩
  unfold Operation.size
  split
  · exact .ok _
  · rename_i ho
    exact hcount _ (.inl ho)
  · rename_i ho
    exact (hcount _ (.inr ho)).map _
  · unfold Operation.constantSize
    split
    · exact .ok _
    · refine .ite (fun _ => ?_) fun _ => .ok _
      exact ((ByteLiteral.read_failsOnly _).map _).imp fun c hc => .inl hc
  · exact .ok _

theorem size_overlong (h : st.Overlong n) :
    st.operation.size st.operand = .error (.tooManyDigits n) := by
  obtain ⟨ho, t, ht, hlong⟩ := h
  have hd := Operand.decimal_overlong hlong
  rcases ho with ho | ho <;>
    simp [ho, ht, Operation.size, Operation.reservedCount, hd, Except.map]

theorem next_failsOnly (st : Statement) (kind : LineKind) (counter : Int) :
    FailsOnly (fun f => f.cause.Expected st.Overlong) (st.next kind counter) := by
  unfold next Operation.advance
  exact ((FailsOnly.bind st.size_failsOnly fun _ _ => .ok _).map _).placed st.location

theorem startAddress_failsOnly (st : Statement) :
    FailsOnly (fun f => f.cause.isDiagnosed = true) st.startAddress := by
  unfold startAddress
  cases st.operand with
  | none => exact .error rfl
  | some t => exact ((Operand.hexadecimal_failsOnly t).map _).placed st.location

end Statement

/-- A line is read, or its label stands alone: that it has no field does not happen. -/
theorem read_failsOnly (raw : Text) (location : Location) :
    FailsOnly (fun f => f.cause.isDiagnosed = true)
      (Statement.read (LineKind.of raw) raw (some location)) := by
  by_cases hr : Readable raw
  · rw [read_readable hr]
    exact .ok _
  · obtain ⟨f, he, hf⟩ := read_unreadable hr (some location)
    rw [he]
    exact .error (Cause.isDiagnosed_of_category (by rw [hf]; decide))

/-! ## The first pass -/

namespace Scan

variable {options : Options} {s : Scan} {n : Nat}

/-- The next line is a reservation whose count has `n` digits, more than are converted, and nothing
    about that line is at fault before its count. -/
structure Meets (options : Options) (s : Scan) (raw : Text) (n : Nat) : Prop where
  below : s.layout.final < options.maxAddress
  overlong : ∃ st, statement? raw = some st ∧ s.layout.Admits options st.label ∧ st.Overlong n

theorem define_failsOnly (s : Scan) (options : Options) (location : Location) (st : Statement)
    (label : Text) :
    FailsOnly (fun f => f.cause.isDiagnosed = true) (s.define options location st label) := by
  unfold define
  split
  · exact .ok _
  · exact .ite (fun _ => .error rfl) fun _ => .ok _

theorem enterLabel_failsOnly (s : Scan) (options : Options) (location : Location)
    (st : Statement) :
    FailsOnly (fun f => f.cause.isDiagnosed = true) (s.enterLabel options location st) := by
  unfold enterLabel
  cases st.label with
  | none => exact .ok s
  | some label => exact s.define_failsOnly options location st label

theorem statement_failsOnly (s : Scan) (options : Options) (location : Location)
    (kind : LineKind) (st : Statement) :
    FailsOnly (fun i => i.fault.cause.Expected fun n =>
      s.layout.Admits options st.label ∧ st.Overlong n) (s.statement options location kind st) := by
  by_cases ho : st.operation = .directive .start
  · rw [statement_start ho]
    refine .bind ((st.startAddress_failsOnly.stopScan s).imp fun i hi => .inl hi) ?_
    exact fun _ _ => .ok _
  · rw [statement_plain ho]
    rcases enterLabel_cases s options location st with ⟨s₁, hl, hadmits, -⟩ | ⟨f, hl, -, -⟩
    · rw [hl]
      show FailsOnly _ (s₁.stop (st.next kind s₁.layout.final) >>= _)
      refine .bind ?_ fun _ _ => .ok _
      refine ((st.next_failsOnly kind s₁.layout.final).stopScan s₁).imp fun i hi => ?_
      exact hi.imp_right fun ⟨n, hn, hlong⟩ => ⟨n, hn, hadmits, hlong⟩
    · rw [hl]
      exact .error (.inl (s.enterLabel_failsOnly options location st f hl))

theorem statement_overlong {location : Location} {st : Statement}
    (ha : s.layout.Admits options st.label) (h : st.Overlong n) (kind : LineKind) :
    ∃ i, s.statement options location kind st = .error i ∧ i.fault.cause = .tooManyDigits n := by
  have ho : st.operation ≠ .directive .start := by
    rcases h.1 with ho | ho <;> rw [ho] <;> decide
  rw [statement_plain ho]
  rcases enterLabel_cases s options location st with ⟨s₁, hl, -⟩ | ⟨f, -, -, hno⟩
  · refine ⟨{ fault := { cause := .tooManyDigits n, location := st.location },
              notices := s₁.notices }, ?_, rfl⟩
    rw [hl]
    show s₁.stop (st.next kind s₁.layout.final) >>= _ = _
    rw [Statement.next, Operation.advance, Statement.size_overlong h]
    rfl
  · exact absurd ha hno

theorem step_failsOnly (s : Scan) (options : Options) (line : Line) :
    FailsOnly (fun i => i.fault.cause.Expected (s.Meets options line.raw))
      (s.step options line) := by
  by_cases hb : s.layout.final < options.maxAddress
  · by_cases hr : Readable line.raw
    · rw [step_readable hb hr]
      cases hst : statement? line.raw with
      | none => exact .ok s
      | some st =>
        refine (s.statement_failsOnly options line.location _ _).imp fun i hi => ?_
        exact hi.imp_right fun ⟨n, hn, hmeets⟩ => ⟨n, hn, hb, st, hst, hmeets⟩
    · obtain ⟨f, he, hf⟩ := step_unreadable hb hr
      rw [he]
      exact .error (.inl (Cause.isDiagnosed_of_category (by rw [hf]; decide)))
  · obtain ⟨f, he, hf⟩ := step_out_of_bounds line (Int.not_lt.mp hb)
    rw [he]
    exact .error (.inl (Cause.isDiagnosed_of_category (by rw [hf]; decide)))

theorem step_meets {line : Line} (h : s.Meets options line.raw n) :
    ∃ i, s.step options line = .error i ∧ i.fault.cause = .tooManyDigits n := by
  obtain ⟨hb, st, hst, hadmits, hlong⟩ := h
  rw [step_readable hb (readable_of_statement hst).1, hst]
  -- the statement is placed first, which leaves its label and its operand
  refine statement_overlong ?_ ?_ _
  · exact hadmits
  · exact hlong

end Scan

/-- The first pass comes, with no fault before, to a reservation whose count has `n` digits, more
    than are converted. -/
def MeetsOverlong (options : Options) (file : Text) (lines : List Text) (n : Nat) : Prop :=
  ∃ before raw after s, lines = before ++ raw :: after ∧
    layOut options (numberLines file before) = .ok s ∧ s.Meets options raw n

section Passes

variable {options : Options} {file : Text} {lines : List Text} {n : Nat}

/-- A numbered source is cut where its lines are. -/
theorem numberLines_cut (file : Text) (before : List Text) (raw : Text) (after : List Text) :
    ∃ line rest, numberLines file (before ++ raw :: after) =
      numberLines file before ++ line :: rest ∧ line.raw = raw := by
  unfold numberLines
  rw [List.zipIdx_append, List.zipIdx_cons, List.map_append, List.map_cons]
  exact ⟨_, _, rfl, rfl⟩

theorem numberLines_eq_append {before after : List Line}
    (h : numberLines file lines = before ++ after) :
    before = numberLines file (before.map Line.raw) ∧
      lines = before.map Line.raw ++ after.map Line.raw := by
  have hlines : lines = before.map Line.raw ++ after.map Line.raw := by
    rw [← List.map_append, ← h, numberLines_raw]
  refine ⟨?_, hlines⟩
  have hbefore := numberLines_take file lines before.length
  rw [h, List.take_left, hlines] at hbefore
  rwa [List.take_left' (List.length_map _)] at hbefore

theorem layOut_failsOnly (options : Options) (file : Text) (lines : List Text) :
    FailsOnly (fun i => i.fault.cause.Expected (MeetsOverlong options file lines))
      (layOut options (numberLines file lines)) := by
  intro i hi
  obtain ⟨before, line, after, s, hsplit, hs, he⟩ := foldlM_eq_error_iff.mp hi
  obtain ⟨hbefore, hlines⟩ := numberLines_eq_append hsplit
  refine (s.step_failsOnly options line i he).imp_right fun ⟨n, hn, hmeets⟩ => ?_
  refine ⟨n, hn, before.map Line.raw, line.raw, after.map Line.raw, s, hlines, ?_, hmeets⟩
  rw [← hbefore]
  exact hs

theorem layOut_meetsOverlong (h : MeetsOverlong options file lines n) :
    ∃ i, layOut options (numberLines file lines) = .error i ∧
      i.fault.cause = .tooManyDigits n := by
  obtain ⟨before, raw, after, s, rfl, hs, hmeets⟩ := h
  obtain ⟨line, rest, hsplit, rfl⟩ := numberLines_cut file before raw after
  obtain ⟨i, he, hi⟩ := Scan.step_meets hmeets
  exact ⟨i, foldlM_eq_error_iff.mpr ⟨_, line, rest, s, hsplit, hs, he⟩, hi⟩

/-! ## The second pass -/

theorem Code.word_failsOnly {t : Text} (h : t.length ≤ Code.operandLimit) :
    FailsOnly (fun c => c.isDiagnosed = true) (Code.word t) := by
  have hshort : ∀ n, ¬ Decimal.Overlong t n := by
    intro n hlong
    have := hlong.lt_length
    unfold Decimal.digitLimit at this
    unfold Code.operandLimit at h
    omega
  unfold Code.word
  cases hd : Operand.decimal t with
  | error cause =>
    have hexpected := Operand.decimal_failsOnly t cause hd
    exact .error ((Cause.expected_iff_of_none hshort cause).mp hexpected)
  | ok v => exact .ite (fun _ => .ok _) fun _ => .error rfl

theorem Code.byte_failsOnly (t : Text) :
    FailsOnly (fun c => c.isDiagnosed = true) (Code.byte t) := by
  unfold Code.byte
  cases hr : ByteLiteral.read t with
  | error cause => exact .error (ByteLiteral.read_failsOnly t cause hr)
  | ok literal =>
    dsimp only
    cases literal.code? with
    | some code => exact .ok code
    | none => exact .error rfl

namespace Statement

theorem constantOperand_failsOnly (st : Statement) (d : Directive) :
    FailsOnly (fun f => f.cause.isDiagnosed = true) (st.constantOperand d) := by
  unfold constantOperand
  cases st.operand with
  | none => exact .error rfl
  | some t => exact .ite (fun _ => .error rfl) fun _ => .ok t

theorem target_failsOnly (st : Statement) (options : Options) (location : Location)
    (symbols : SymbolTable) (m : Mnemonic) :
    FailsOnly (fun f => f.cause.category = .missing ∨ f.cause.category = .undefinedSymbol)
      (st.target options location symbols m) := by
  unfold target
  refine .ite (fun _ => ?_) fun _ => .ok _
  cases st.operand with
  | none => exact .error (.inl rfl)
  | some t =>
    dsimp only
    cases symbols.find? t with
    | some symbol => exact .ok _
    | none => exact .ite (fun _ => .error (.inr rfl)) fun _ => .ok _

theorem encode_failsOnly (st : Statement) (options : Options) (location : Location)
    (symbols : SymbolTable) :
    FailsOnly (fun f => f.cause.isDiagnosed = true) (st.encode options location symbols) := by
  unfold encode
  split
  · refine .bind (st.constantOperand_failsOnly .word) fun t ht => ?_
    have hshort : t.length ≤ Code.operandLimit := (constantOperand_eq_ok_iff.mp ht).2
    exact .bind ((Code.word_failsOnly hshort).placed st.location) fun _ _ => .ok _
  · refine .bind (st.constantOperand_failsOnly .byte) fun t _ => ?_
    exact .bind ((Code.byte_failsOnly t).placed st.location) fun _ _ => .ok _
  · exact .ok _
  · exact .error rfl
  · refine .bind ((st.target_failsOnly options location symbols _).imp fun f hf => ?_)
      fun _ _ => .ok _
    exact Cause.isDiagnosed_of_category (by rcases hf with h | h <;> rw [h] <;> decide)

end Statement

namespace Generation

theorem checkPhase_failsOnly (g : Generation) (symbols : SymbolTable) (location : Location)
    (st : Statement) :
    FailsOnly (fun f => f.cause.isDiagnosed = true) (g.checkPhase symbols location st) := by
  unfold checkPhase
  split
  · exact .ok ()
  · split
    · exact .ok ()
    · exact .ite (fun _ => .error rfl) fun _ => .ok ()

theorem emit_failsOnly (g : Generation) (options : Options) (symbols : SymbolTable)
    (location : Location) (kind : LineKind) {st : Statement}
    (ho : st.operation ≠ .directive .start) (hs : st.Sizable) :
    FailsOnly (fun b => b.fault.cause.isDiagnosed = true)
      (g.emit options symbols location kind st) := by
  unfold emit
  refine .bind ((g.checkPhase_failsOnly symbols location st).stopGeneration g) fun _ _ => ?_
  refine .bind ((st.encode_failsOnly options location symbols).stopGeneration g) fun _ _ => ?_
  dsimp only
  rw [Statement.next_sizable ho hs]
  exact .ok _

theorem take_failsOnly (g : Generation) (options : Options) (layout : Layout)
    (location : Location) (kind : LineKind) {st : Statement} (hs : st.Sizable) :
    FailsOnly (fun b => b.fault.cause.isDiagnosed = true)
      (g.take options layout location kind st) := by
  unfold take
  refine .ite (fun _ => ?_) fun ho => .ite (fun _ => ?_) fun _ => ?_
  · unfold start
    refine .ite (fun _ => .error rfl) fun _ => ?_
    exact .bind (st.startAddress_failsOnly.stopGeneration g) fun _ _ => .ok _
  · unfold finish
    cases g.load with
    | none => exact .error rfl
    | some load => exact .ok _
  · exact g.emit_failsOnly options layout.symbols location kind ho hs

theorem step_failsOnly (g : Generation) (options : Options) (layout : Layout) {line : Line}
    (hl : Layable line.raw) :
    FailsOnly (fun b => b.fault.cause.isDiagnosed = true) (g.step options layout line) := by
  rw [step_readable hl.readable]
  cases hst : statement? line.raw with
  | none => exact .ok _
  | some st => exact g.take_failsOnly options layout _ _ (hl.sizable st hst)

/-- On lines that the first pass has measured, every failure of the second is an assembler error. -/
theorem run_failsOnly (g : Generation) (options : Options) (layout : Layout) (file : Text)
    {source : List Line} (hl : ∀ line ∈ source, Layable line.raw) :
    FailsOnly (fun b => b.fault.cause.isDiagnosed = true) (run options layout file g source) := by
  induction source generalizing g with
  | nil => exact .error rfl
  | cons line rest ih =>
    rw [List.forall_mem_cons] at hl
    unfold run
    refine .bind (g.step_failsOnly options layout hl.1) fun g₁ _ => ?_
    exact .ite (fun _ => .ok g₁) fun _ => ih g₁ hl.2

end Generation

/-! ## Both passes -/

theorem assemble_failsOnly (options : Options) (file : Text) (lines : List Text) :
    FailsOnly (fun f => f.cause.Expected (MeetsOverlong options file lines))
      (assemble options file lines).result := by
  unfold assemble
  cases hs : layOut options (numberLines file lines) with
  | error i =>
    simp only [hs]
    exact .error (layOut_failsOnly options file lines i hs)
  | ok s =>
    have hl : ∀ line ∈ numberLines file lines, Layable line.raw := by
      intro line hm
      exact (fits_iff.mp (layOut_fits hs)).1 _ (List.mem_map_of_mem hm)
    simp only [hs]
    cases hg : generate options s.layout file (numberLines file lines) with
    | error b => exact .error (.inl (Generation.run_failsOnly {} options s.layout file hl b hg))
    | ok g => exact .ok _

theorem assemble_meetsOverlong (h : MeetsOverlong options file lines n) :
    ∃ f, (assemble options file lines).result = .error f ∧ f.cause = .tooManyDigits n := by
  obtain ⟨i, hi, hn⟩ := layOut_meetsOverlong h
  unfold assemble
  simp only [hi]
  exact ⟨i.fault, rfl, hn⟩

end Passes

/-! ## A source and an assembler of its own -/

theorem assembleTextOnce_result {settings : List (Text × Setting)} {options : Options}
    (h : ({} : Options).setAll settings = .ok options) (source file : Text) :
    (assembleTextOnce settings source file).result =
      match (assemble options file (Text.lines source)).result with
      | .ok done => .ok done.program.render
      | .error fault => .error (.assembly fault) := by
  unfold assembleTextOnce Session.open?
  rw [h]
  simp only [Except.map, Session.assembleText, Session.start, Session.outcomeReply,
    TwoPass.assembleText]
  cases hr : (assemble options file (Text.lines source)).result with
  | error fault => rfl
  | ok done =>
    simp only [Except.bind, Assembler.objectText, Assembler.program, Assembler.after, hr]
    rfl

/-- Assembling a source under options that can be set gives an object text or fails. A failure is
    an assembler error, but for one: too many digits in a count, which is met exactly where the
    first pass comes, with no fault before, to such a reservation. -/
theorem assembleTextOnce_failures {settings : List (Text × Setting)} {options : Options}
    (h : ({} : Options).setAll settings = .ok options) (source file : Text) :
    (∀ failure, (assembleTextOnce settings source file).result = .error failure →
      ∃ fault, failure = .assembly fault ∧
        (fault.cause.isDiagnosed = true ∨ ∃ n, fault.cause = .tooManyDigits n)) ∧
    ∀ n, (∃ fault, (assembleTextOnce settings source file).result = .error (.assembly fault) ∧
        fault.cause = .tooManyDigits n) ↔
      MeetsOverlong options file (Text.lines source) n := by
  rw [assembleTextOnce_result h]
  cases hr : (assemble options file (Text.lines source)).result with
  | ok done =>
    refine ⟨by simp, fun n => iff_of_false (by simp) fun hmeets => ?_⟩
    obtain ⟨f, hf, -⟩ := assemble_meetsOverlong hmeets
    cases hr.symm.trans hf
  | error f =>
    dsimp only
    have hexpected := assemble_failsOnly options file (Text.lines source) f hr
    constructor
    · intro failure hfailure
      cases hfailure
      exact ⟨f, rfl, hexpected.imp_right fun ⟨n, hn, _⟩ => ⟨n, hn⟩⟩
    · intro n
      constructor
      · rintro ⟨fault, hfault, hn⟩
        cases hfault
        rcases hexpected with hd | ⟨m, hm, hmeets⟩
        · rw [hn] at hd
          cases hd
        · cases hm.symm.trans hn
          exact hmeets
      · intro hmeets
        obtain ⟨fault, hfault, hn⟩ := assemble_meetsOverlong hmeets
        cases hr.symm.trans hfault
        exact ⟨f, rfl, hn⟩

/-! ### A count of one digit more than are converted -/

theorem Text.lines_of_not_mem {t : Text} (hne : t ≠ []) (h : '\n' ∉ t) : Text.lines t = [t] := by
  induction t with
  | nil => exact absurd rfl hne
  | cons c cs ih =>
    rw [List.mem_cons, not_or] at h
    rw [Text.lines, if_neg fun hc => h.1 hc.symm]
    by_cases hcs : cs = []
    · rw [hcs]
      rfl
    · rw [ih hcs h.2]
      rfl

/-- A reservation of `n + 1` nines. -/
def Source.nines (n : Nat) : Text := " RESB ".toList ++ List.replicate (n + 1) '9'

theorem Source.statement?_nines (n : Nat) : statement? (nines n) = some
    { label := none, operation := .directive .reserveBytes,
      operand := some (List.replicate (n + 1) '9'), text := nines n } := by
  have hend : Text.dropLineEnd (nines n) = nines n := by
    unfold nines Text.dropLineEnd Text.dropEndWhile
    rw [List.replicate_succ', ← List.append_assoc, List.reverse_append]
    simp
  have hliteral : literal? (List.replicate (n + 1) '9') = none := by
    cases n <;> rfl
  have hfields : fields (nines n) = ["RESB".toList, List.replicate (n + 1) '9'] := by
    show "RESB".toList :: fields (List.replicate (n + 1) '9') = _
    rw [List.replicate_succ, fields_run]
    · intro d hd
      rw [← List.replicate_succ] at hd
      rw [List.eq_of_mem_replicate hd]
      decide
    · exact hliteral
  unfold statement? Statement.read
  simp only [hend, hfields]
  rfl

theorem assembleTextOnce_failures_nines : ∃ options fault,
    ({} : Options).setAll [("max_address".toList, .number 0x100)] = .ok options ∧
    (assembleTextOnce [("max_address".toList, .number 0x100)]
      ("PROG  START 0\n".toList ++ nines 4300) "prog.asm".toList).result =
        .error (.assembly fault) ∧ fault.cause = .tooManyDigits 4301 := by
  have hset : ({} : Options).setAll [("max_address".toList, .number 0x100)] =
      .ok { maxAddress := 0x100 } := rfl
  have hline : '\n' ∉ nines 4300 := by
    unfold nines
    rw [List.mem_append, List.mem_replicate, not_or]
    exact ⟨by decide, fun h => absurd h.2 (by decide)⟩
  have hlines : Text.lines ("PROG  START 0\n".toList ++ nines 4300) =
      ["PROG  START 0\n".toList, nines 4300] := by
    show "PROG  START 0\n".toList :: Text.lines (nines 4300) = _
    rw [Text.lines_of_not_mem (t := nines 4300) (List.cons_ne_nil _ _) hline]
  have hlong : Decimal.Overlong (List.replicate 4301 '9') 4301 := by
    have hdigits : ∀ c ∈ List.replicate 4301 '9', Decimal.isDigit c = true := by
      intro c hc
      rw [List.eq_of_mem_replicate hc]
      rfl
    have h := Decimal.Overlong.plain (by rw [List.length_replicate]; decide) hdigits
    rwa [List.length_replicate] at h
  have hmeets : MeetsOverlong { maxAddress := 0x100 } "prog.asm"
      (Text.lines ("PROG  START 0\n".toList ++ nines 4300)) 4301 := by
    rw [hlines]
    exact ⟨["PROG  START 0\n".toList], nines 4300, [], _, rfl, rfl, by decide, _,
      statement?_nines 4300, nofun, .inl rfl, _, rfl, hlong⟩
  obtain ⟨fault, hresult, hcause⟩ :=
    ((assembleTextOnce_failures hset ("PROG  START 0\n".toList ++ nines 4300)
      "prog.asm".toList).2 4301).mpr hmeets
  exact ⟨_, fault, hset, hresult, hcause⟩

end TwoPass
