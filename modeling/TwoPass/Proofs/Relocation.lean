import TwoPass.Proofs.Bounds

/-
  Moving a program. In a source whose first statement is its only START, every address behind START
  is the address START gives and the bytes between them (`Based.addressAt_eq`), and these bytes do
  not depend on where the program is. So when START is given another address, labels move by the
  difference, sizes and acceptance do not move at all but for the limit, and a code changes only
  where it holds the address of a label (`relocation`). Each such code has a modification record.
-/

namespace TwoPass

open Source Object

namespace Source

theorem assembled_remarks {before : List Text} (h : ∀ line ∈ before, statement? line = none)
    (started : Bool) (lines : List Text) :
    Assembled started (before ++ lines) ↔ Assembled started lines := by
  induction before with
  | nil => exact Iff.rfl
  | cons line rest ih =>
    rw [List.forall_mem_cons] at h
    have hallowed : Allowed started line := by
      intro st hst
      rw [h.1] at hst
      cases hst
    rw [List.cons_append, Assembled, isStart, isEnd, holds_remark h.1, holds_remark h.1,
      Bool.or_false, ih h.2]
    exact ⟨fun ha => ha.2 rfl, fun ha => ⟨hallowed, fun _ => ha⟩⟩

theorem assembled_start {raw : Text} {st : Statement} (hst : statement? raw = some st)
    (ho : st.operation = .directive .start) (lines : List Text) :
    Assembled false (raw :: lines) ↔ Assembled true lines := by
  have hstart : isStart raw = true := holds_iff.mpr ⟨st, hst, ho⟩
  have hend : isEnd raw = false := isEnd_of_isStart hstart
  have hallowed : Allowed false raw := by
    intro st' hst'
    rw [← Option.some.inj (hst.symm.trans hst'), Statement.Allowed, Statement.Encodable, ho]
    refine ⟨fun _ => rfl, ?_, trivial⟩
    intro hfinish
    cases hfinish
  rw [Assembled, hend, hstart]
  exact ⟨fun ha => ha.2 rfl, fun ha => ⟨hallowed, fun _ => ha⟩⟩

/-- A source whose first statement is START, with the address `base`, and that has no other. -/
structure Based (before : List Text) (raw : Text) (after : List Text) (st : Statement)
    (base : Nat) : Prop where
  remarks : ∀ line ∈ before, statement? line = none
  statement : statement? raw = some st
  operation : st.operation = .directive .start
  operand : st.operand.bind Hex.read? = some base
  only : ∀ line ∈ after, isStart line = false

namespace Based

variable {before after : List Text} {raw : Text} {st : Statement} {base : Nat}

/-! ## Addresses -/

theorem loadAddress_eq (b : Based before raw after st base) : st.loadAddress = base := by
  rw [Statement.loadAddress, b.operand]
  rfl

theorem count_eq (b : Based before raw after st base) (c : Nat) : count c raw = base := by
  rw [count_start b.statement b.operation, b.loadAddress_eq]

theorem countFrom_before (b : Based before raw after st base) : countFrom 0 before = 0 := by
  rw [countFrom_eq_extent fun line hl => holds_remark (b.remarks line hl) .start,
    extent_remarks b.remarks]

/-- An address behind START is that of START and the bytes between the two. -/
theorem addressAt_eq (b : Based before raw after st base) (j : Nat) :
    addressAt (before ++ raw :: after) (before.length + (j + 1)) =
      base + extent (after.take j) := by
  have hstart : ∀ line ∈ after.take j, isStart line = false :=
    fun line hl => b.only line (List.mem_of_mem_take hl)
  unfold addressAt
  rw [List.take_length_add_append, List.take_succ_cons, countFrom_append, countFrom_cons,
    b.count_eq, countFrom_eq_extent hstart]

theorem countFrom_eq (b : Based before raw after st base) :
    countFrom 0 (before ++ raw :: after) = base + extent after := by
  rw [countFrom_append, countFrom_cons, b.count_eq, countFrom_eq_extent b.only]

theorem labels_before (b : Based before raw after st base) : labels before = [] := by
  apply List.filterMap_eq_nil_iff.mpr
  intro line hl
  rw [label?, b.remarks line hl]
  rfl

theorem label?_eq_none (b : Based before raw after st base) : label? raw = none := by
  rw [label?, b.statement, Option.bind_some, Statement.defined, if_pos b.operation]

theorem labels_eq (b : Based before raw after st base) :
    labels (before ++ raw :: after) = labels after := by
  rw [labels_append, b.labels_before, labels_cons, b.label?_eq_none]
  rfl

/-- The bytes between START and the first line that defines a label. -/
def offset (after : List Text) (label : Text) : Nat :=
  extent (after.take (after.findIdx (defines label)))

theorem labelAddress_eq (b : Based before raw after st base) {label : Text}
    (hl : label ∈ labels after) :
    labelAddress (before ++ raw :: after) label = base + offset after label := by
  -- Neither the remarks nor START define a label, so the first line that does is behind START.
  have hbefore : before.findIdx? (defines label) = none :=
    findIdx?_defines_none (by rw [b.labels_before]; exact List.not_mem_nil)
  have hraw : ¬ defines label raw = true := by
    rw [defines_iff, b.label?_eq_none]
    exact (Option.some_ne_none label).symm
  have hindex : (before ++ raw :: after).findIdx? (defines label) =
      some (before.length + (after.findIdx (defines label) + 1)) := by
    rw [List.findIdx?_append, hbefore, List.findIdx?_cons, if_neg hraw, findIdx?_defines hl]
    simp [Nat.add_comm]
  unfold labelAddress
  rw [hindex]
  exact b.addressAt_eq _

/-! ## Acceptance -/

theorem fits_iff (b : Based before raw after st base) {limit : Int} :
    Fits limit 0 (before ++ raw :: after) ↔
      (Fits limit 0 before ∧ 0 < limit) ∧ Fits limit base after := by
  have hlay : Layable raw := by
    refine ⟨(readable_of_statement b.statement).1, fun st' hst' => ?_⟩
    rw [← Option.some.inj (b.statement.symm.trans hst'), Statement.sizable_start_iff b.operation,
      b.operand]
    rfl
  rw [fits_append, b.countFrom_before, Fits, b.count_eq, ← and_assoc, and_iff_left hlay]
  rfl

theorem beforeEnd_eq (b : Based before raw after st base) :
    beforeEnd (before ++ raw :: after) = before ++ raw :: beforeEnd after := by
  have hend : isEnd raw = false := isEnd_of_isStart (holds_iff.mpr ⟨st, b.statement, b.operation⟩)
  rw [beforeEnd_append fun line hl => holds_remark (b.remarks line hl) .finish, beforeEnd_cons hend]

theorem assembled_iff (b : Based before raw after st base) :
    Assembled false (before ++ raw :: after) ↔ Assembled true after := by
  rw [assembled_remarks b.remarks, assembled_start b.statement b.operation]

theorem statements_eq (b : Based before raw after st base) (lines : List Text) :
    (before ++ raw :: lines).filterMap statement? = st :: lines.filterMap statement? := by
  rw [List.filterMap_append, List.filterMap_eq_nil_iff.mpr b.remarks, List.nil_append,
    List.filterMap_cons, b.statement]

theorem relocations_eq (b : Based before raw after st base) (lines : List Text) :
    relocations (before ++ raw :: lines) = relocations lines := by
  have hr : st.relocated = none := by rw [Statement.relocated, b.operation]
  unfold relocations
  rw [b.statements_eq, List.filterMap_cons, hr]

/-- Of the address that START gives, acceptance depends on what the lines behind it come to. -/
theorem admissible_iff (b : Based before raw after st base) {options : Options} :
    Admissible options (before ++ raw :: after) ↔
      Fits options.maxAddress base after ∧
      (Fits options.maxAddress 0 before ∧ 0 < options.maxAddress) ∧ Assembled true after ∧
      (options.rejectDuplicates = true → (labels after).Nodup) ∧
      (options.rejectUndefined = true →
        ∀ name ∈ relocations (beforeEnd after), name ∈ labels after) := by
  constructor
  · rintro ⟨hfits, hassembled, hdistinct, hresolved⟩
    rw [b.beforeEnd_eq, b.relocations_eq, b.labels_eq] at hresolved
    rw [b.fits_iff] at hfits
    rw [b.labels_eq] at hdistinct
    exact ⟨hfits.2, hfits.1, b.assembled_iff.mp hassembled, hdistinct, hresolved⟩
  · rintro ⟨hfits, hbefore, hassembled, hdistinct, hresolved⟩
    refine ⟨b.fits_iff.mpr ⟨hbefore, hfits⟩, b.assembled_iff.mpr hassembled, ?_, ?_⟩
    · rwa [b.labels_eq]
    · rwa [b.beforeEnd_eq, b.relocations_eq, b.labels_eq]

/-! ## The program -/

/-- START is where the source is cut. -/
theorem exists_outline (b : Based before raw after st base) (h : Assembled true after) :
    ∃ o : Outline (before ++ raw :: after),
      o.opening = before ∧ o.start = st ∧ o.middle = beforeEnd after := by
  obtain ⟨middle, endLine, rest, hafter, hend, hmiddle⟩ := h.middle
  have hbefore : beforeEnd after = middle := by
    rw [hafter, beforeEnd_append fun line hl => (hmiddle line hl).2, beforeEnd_end hend,
      List.append_nil]
  have hplain : ∀ line ∈ before ++ middle, IsPlain line := by
    intro line hl
    rcases List.mem_append.mp hl with hl | hl
    · exact ⟨holds_remark (b.remarks line hl) .start, holds_remark (b.remarks line hl) .finish⟩
    · exact hmiddle line hl
  exact ⟨⟨before, raw, st, middle, endLine, rest, by rw [hafter], ⟨b.statement, b.operation⟩, hend,
    hplain⟩, rfl, rfl, hbefore.symm⟩

theorem coded_eq (b : Based before raw after st base) (lines : List Text) :
    coded (before ++ raw :: lines) = coded lines := by
  have hcode : st.code (fun _ => 0) = [] := by rw [Statement.code, b.operation]
  unfold coded
  rw [b.statements_eq, List.filter_cons_of_neg (by simp [hcode])]

/-- The records of a program, in terms of the lines behind START. -/
theorem records_eq (b : Based before raw after st base) {options : Options} {file : Text}
    {done : Assembly} (h : (assemble options file (before ++ raw :: after)).result = .ok done) :
    done.program.header =
      some { name := st.label.getD [], load := base, length := extent after } ∧
    done.program.text = (coded (beforeEnd after)).map (fun s =>
      { code := s.code (labelAddress (before ++ raw :: after)) }) ∧
    done.program.modifications.map Modification.symbol =
      (coded (beforeEnd after)).filterMap Statement.relocated := by
  have hassembled := (assemble_isOk_iff_admissible.mp ⟨done, h⟩).assembled
  obtain ⟨o, hopening, hstart, hmiddle⟩ := b.exists_outline (b.assembled_iff.mp hassembled)
  have hload : o.load = base := by rw [Outline.load, hstart, b.loadAddress_eq]
  have hlength : o.length = extent after := by
    rw [Outline.length, b.countFrom_eq, hload]
    omega
  have hcodes : o.codes =
      (coded (beforeEnd after)).map (Statement.code (labelAddress (before ++ raw :: after))) := by
    rw [Outline.codes, ← o.beforeEnd_eq, b.beforeEnd_eq, codes_eq_coded, b.coded_eq]
  have hremarks : relocations before = [] := by
    rw [relocations, List.filterMap_eq_nil_iff.mpr b.remarks]
    rfl
  rw [program_of_assemble h o]
  unfold Outline.program
  refine ⟨?_, ?_, ?_⟩
  · rw [hload, hlength, Outline.name, hstart]
  · rw [hcodes, List.map_map]
    rfl
  · rw [hopening, hmiddle, hremarks, ← relocations_eq_coded, List.map_nil, List.nil_append,
      List.map_map]
    exact List.map_id _

/-- The symbols of a program are at fixed offsets from START. -/
theorem symbols_eq (b : Based before raw after st base) {options : Options} {file : Text}
    {done : Assembly} (h : (assemble options file (before ++ raw :: after)).result = .ok done) :
    done.layout.symbols.addresses = (labels after).eraseDups.map (fun name =>
      (name, (base + offset after name : Int))) ∧
    ∀ name, done.layout.symbols.contains name = true ↔ name ∈ labels after := by
  obtain ⟨s, hs, hlayout⟩ := assemble_layout h
  rw [← hlayout]
  constructor
  · rw [layOut_addresses hs, b.labels_eq]
    apply List.map_congr_left
    intro name hname
    rw [b.labelAddress_eq (List.mem_eraseDups.mp hname)]
    rfl
  · intro name
    rw [layOut_contains_iff hs, b.labels_eq]

end Based

end Source

/-! ## Two programs -/

/-- An instruction whose operand is a symbol. -/
def Statement.Refers (st : Statement) (symbols : SymbolTable) : Prop :=
  ∃ m name, st.operation = .instruction m ∧ m ≠ .rsub ∧ st.operand = some name ∧
    symbols.contains name = true

/-- Two codes with the same opcode, of which the second one has an address `d` higher. -/
def ShiftedBy (d : Int) (code₁ code₂ : Text) : Prop :=
  ∃ opcode a b, opcode.length = 2 ∧ a < 16 ^ 4 ∧ b < 16 ^ 4 ∧
    code₁ = opcode ++ Hex.digits 4 a ∧ code₂ = opcode ++ Hex.digits 4 b ∧ (b : Int) = a + d

/-- A code follows the addresses of symbols, and only these. -/
theorem Statement.code_moved {st : Statement} {symbols : SymbolTable} {d : Int}
    {address₁ address₂ : Text → Nat} (he : st.Encodable) (h₁ : ∀ name, address₁ name < 16 ^ 4)
    (h₂ : ∀ name, address₂ name < 16 ^ 4)
    (hmoved : ∀ name, symbols.contains name = true → (address₂ name : Int) = address₁ name + d)
    (hfixed : ∀ name, ¬ symbols.contains name = true → address₁ name = address₂ name) :
    (¬ st.Refers symbols → st.code address₁ = st.code address₂) ∧
    (st.Refers symbols → ShiftedBy d (st.code address₁) (st.code address₂)) := by
  constructor
  · intro hno
    apply (code_eq_iff he).mpr
    intro name hname
    obtain ⟨m, ho, hm, hop⟩ := relocated_eq_some_iff.mp hname
    exact hfixed name fun hc => hno ⟨m, name, ho, hm, hop, hc⟩
  · rintro ⟨m, name, ho, hm, hop, hc⟩
    refine ⟨Hex.digits 2 m.opcode, address₁ name, address₂ name, Hex.length_digits .., h₁ name,
      h₂ name, ?_, ?_, hmoved name hc⟩
    · rw [code_instruction_digits ho h₁, if_neg hm, hop]
      rfl
    · rw [code_instruction_digits ho h₂, if_neg hm, hop]
      rfl

/-- A program and the same one moved by `d`; `statements` are those that have a code. -/
structure Moved (d : Int) (statements : List Statement) (old new : Assembly) : Prop where
  symbols : new.layout.symbols.addresses =
    old.layout.symbols.addresses.map fun s => (s.1, s.2 + d)
  header : ∃ h₁ h₂, old.program.header = some h₁ ∧ new.program.header = some h₂ ∧
    h₂.name = h₁.name ∧ h₂.load = h₁.load + d ∧ h₂.length = h₁.length
  count : old.program.text.length = statements.length ∧
    new.program.text.length = statements.length
  text : ∀ (i : Nat) st t₁ t₂, statements[i]? = some st → old.program.text[i]? = some t₁ →
    new.program.text[i]? = some t₂ →
    (¬ st.Refers old.layout.symbols → t₁ = t₂) ∧
    (st.Refers old.layout.symbols → ShiftedBy d t₁.code t₂.code)
  modifications : old.program.modifications.map Modification.symbol =
      statements.filterMap Statement.relocated ∧
    new.program.modifications.map Modification.symbol = statements.filterMap Statement.relocated
  /-- A record that changes is to be adjusted. -/
  covered : ∀ (i : Nat) st t₁ t₂, statements[i]? = some st → old.program.text[i]? = some t₁ →
    new.program.text[i]? = some t₂ → t₁ ≠ t₂ →
    ∃ m ∈ old.program.modifications, st.relocated = some m.symbol

section Relocation

variable {options : Options} {before after : List Text} {raw₁ raw₂ : Text} {st₁ st₂ : Statement}
  {a₁ a₂ : Nat} {file₁ file₂ : Text} {old new : Assembly}

/-- A lower address is as good as a higher one. -/
theorem assemble_lower (one : Based before raw₁ after st₁ a₁) (two : Based before raw₂ after st₂ a₂)
    (hle : a₂ ≤ a₁)
    (h : ∃ done, (assemble options file₁ (before ++ raw₁ :: after)).result = .ok done) :
    ∃ done, (assemble options file₂ (before ++ raw₂ :: after)).result = .ok done := by
  rw [assemble_isOk_iff_admissible, one.admissible_iff] at h
  rw [assemble_isOk_iff_admissible, two.admissible_iff]
  exact ⟨h.1.lower one.only hle, h.2⟩

/-- The codes of a moved program, statement by statement. -/
theorem code_moved_of_assemble (hlimit : options.maxAddress ≤ 0x10000)
    (one : Based before raw₁ after st₁ a₁) (two : Based before raw₂ after st₂ a₂)
    (h₁ : (assemble options file₁ (before ++ raw₁ :: after)).result = .ok old)
    (h₂ : (assemble options file₂ (before ++ raw₂ :: after)).result = .ok new)
    {st : Statement} (hst : st ∈ coded (beforeEnd after)) :
    (¬ st.Refers old.layout.symbols → st.code (labelAddress (before ++ raw₁ :: after)) =
      st.code (labelAddress (before ++ raw₂ :: after))) ∧
    (st.Refers old.layout.symbols → ShiftedBy ((a₂ : Int) - a₁)
      (st.code (labelAddress (before ++ raw₁ :: after)))
      (st.code (labelAddress (before ++ raw₂ :: after)))) := by
  have hadmissible₁ := assemble_isOk_iff_admissible.mp ⟨old, h₁⟩
  have hadmissible₂ := assemble_isOk_iff_admissible.mp ⟨new, h₂⟩
  have hcontains := (one.symbols_eq h₁).2
  have hencodable := (one.assembled_iff.mp hadmissible₁.assembled).encodable hst
  apply Statement.code_moved hencodable (labelAddress_lt hadmissible₁.fits hlimit)
    (labelAddress_lt hadmissible₂.fits hlimit)
  · intro name hname
    rw [hcontains] at hname
    rw [one.labelAddress_eq hname, two.labelAddress_eq hname]
    omega
  · intro name hname
    rw [hcontains] at hname
    rw [labelAddress_undefined (by rwa [one.labels_eq]),
      labelAddress_undefined (by rwa [two.labels_eq])]

theorem text_moved (hlimit : options.maxAddress ≤ 0x10000) (one : Based before raw₁ after st₁ a₁)
    (two : Based before raw₂ after st₂ a₂)
    (h₁ : (assemble options file₁ (before ++ raw₁ :: after)).result = .ok old)
    (h₂ : (assemble options file₂ (before ++ raw₂ :: after)).result = .ok new) {i : Nat}
    {st : Statement} {t₁ t₂ : TextRecord} (hst : (coded (beforeEnd after))[i]? = some st)
    (ht₁ : old.program.text[i]? = some t₁) (ht₂ : new.program.text[i]? = some t₂) :
    (¬ st.Refers old.layout.symbols → t₁ = t₂) ∧
    (st.Refers old.layout.symbols → ShiftedBy ((a₂ : Int) - a₁) t₁.code t₂.code) := by
  obtain ⟨-, htext₁, -⟩ := one.records_eq h₁
  obtain ⟨-, htext₂, -⟩ := two.records_eq h₂
  rw [htext₁, List.getElem?_map, hst, Option.map_some, Option.some.injEq] at ht₁
  rw [htext₂, List.getElem?_map, hst, Option.map_some, Option.some.injEq] at ht₂
  obtain ⟨hsame, hshifted⟩ := code_moved_of_assemble hlimit one two h₁ h₂ (List.mem_of_getElem? hst)
  rw [← ht₁, ← ht₂]
  exact ⟨fun hno => congrArg TextRecord.mk (hsame hno), hshifted⟩

/-- Symbols keep their distance from START. -/
theorem symbols_moved (one : Based before raw₁ after st₁ a₁) (two : Based before raw₂ after st₂ a₂)
    (h₁ : (assemble options file₁ (before ++ raw₁ :: after)).result = .ok old)
    (h₂ : (assemble options file₂ (before ++ raw₂ :: after)).result = .ok new) :
    new.layout.symbols.addresses =
      old.layout.symbols.addresses.map fun s => (s.1, s.2 + ((a₂ : Int) - a₁)) := by
  rw [(one.symbols_eq h₁).1, (two.symbols_eq h₂).1, List.map_map]
  apply List.map_congr_left
  intro name _
  simp only [Function.comp_apply, Prod.mk.injEq, true_and]
  omega

/-- An instruction that refers to a symbol has a modification record. -/
theorem modification_of_refers (one : Based before raw₁ after st₁ a₁)
    (h₁ : (assemble options file₁ (before ++ raw₁ :: after)).result = .ok old) {st : Statement}
    (hst : st ∈ coded (beforeEnd after)) (h : st.Refers old.layout.symbols) :
    ∃ m ∈ old.program.modifications, st.relocated = some m.symbol := by
  obtain ⟨-, -, hmods⟩ := one.records_eq h₁
  obtain ⟨m, name, ho, hm, hop, -⟩ := h
  have hr : st.relocated = some name := Statement.relocated_eq_some_iff.mpr ⟨m, ho, hm, hop⟩
  have hmem : name ∈ old.program.modifications.map Modification.symbol := by
    rw [hmods]
    exact List.mem_filterMap.mpr ⟨st, hst, hr⟩
  obtain ⟨modification, hmodification, rfl⟩ := List.mem_map.mp hmem
  exact ⟨modification, hmodification, hr⟩

/-- Sources that differ in the address of START alone, their first statement and only START: below
    a limit of `0x10000` the one with the lower address is assembled if the other one is, and if
    both are, the second program is the first one moved by the difference. -/
theorem relocation (file₁ file₂ : Text) (hlimit : options.maxAddress ≤ 0x10000)
    (one : Based before raw₁ after st₁ a₁) (two : Based before raw₂ after st₂ a₂)
    (hlabel : st₁.label = st₂.label) :
    (a₂ ≤ a₁ → (∃ done, (assemble options file₁ (before ++ raw₁ :: after)).result = .ok done) →
      ∃ done, (assemble options file₂ (before ++ raw₂ :: after)).result = .ok done) ∧
    ∀ old new, (assemble options file₁ (before ++ raw₁ :: after)).result = .ok old →
      (assemble options file₂ (before ++ raw₂ :: after)).result = .ok new →
      Moved ((a₂ : Int) - a₁) (coded (beforeEnd after)) old new := by
  refine ⟨fun hle h => assemble_lower one two hle h, ?_⟩
  intro old new h₁ h₂
  obtain ⟨hheader₁, htext₁, hmods₁⟩ := one.records_eq h₁
  obtain ⟨hheader₂, htext₂, hmods₂⟩ := two.records_eq h₂
  refine ⟨symbols_moved one two h₁ h₂, ?_, ?_, ?_, ⟨hmods₁, hmods₂⟩, ?_⟩
  · refine ⟨_, _, hheader₁, hheader₂, by rw [hlabel], ?_, rfl⟩
    show (a₂ : Int) = a₁ + (a₂ - a₁)
    omega
  · rw [htext₁, htext₂, List.length_map, List.length_map]
    exact ⟨rfl, rfl⟩
  · intro i st t₁ t₂ hst ht₁ ht₂
    exact text_moved hlimit one two h₁ h₂ hst ht₁ ht₂
  · intro i st t₁ t₂ hst ht₁ ht₂ hne
    apply modification_of_refers one h₁ (List.mem_of_getElem? hst)
    apply Classical.byContradiction
    intro hno
    exact hne ((text_moved hlimit one two h₁ h₂ hst ht₁ ht₂).1 hno)

end Relocation

/-- The lines behind START of a program that refers to itself and to a name it does not define. -/
def Source.body : List Text := [
  "FIRST LDA   FIVE",
  "      JSUB  FAR",
  "FIVE  WORD  5",
  "      RSUB",
  "      END"]

/-- The line of START before them, and its statement. -/
def Source.copyAt (operand : Text) : Text := "COPY  START " ++ operand

def Source.copyStart (operand : Text) : Statement where
  label := some "COPY"
  operation := .directive .start
  operand := some operand
  text := copyAt operand

def Source.preface : List Text := ["# Copies."]

theorem relocation_body : ({} : Options).maxAddress ≤ 0x10000 ∧
    Based preface (copyAt "1000") body (copyStart "1000") 0x1000 ∧
    Based preface (copyAt "20F") body (copyStart "20F") 0x20F ∧
    (copyStart "1000").label = (copyStart "20F").label ∧ ∃ old new,
      (assemble {} "old.asm" (preface ++ copyAt "1000" :: body)).result = .ok old ∧
      (assemble {} "new.asm" (preface ++ copyAt "20F" :: body)).result = .ok new ∧
      old.program.text = [⟨"001006"⟩, ⟨"480000"⟩, ⟨"000005"⟩, ⟨"4C0000"⟩] ∧
      new.program.text = [⟨"000215"⟩, ⟨"480000"⟩, ⟨"000005"⟩, ⟨"4C0000"⟩] ∧
      Moved ((0x20F : Nat) - (0x1000 : Nat)) (coded (beforeEnd body)) old new := by
  have hlimit : ({} : Options).maxAddress ≤ 0x10000 := by decide
  have one : Based preface (copyAt "1000") body (copyStart "1000") 0x1000 :=
    ⟨by decide +kernel, by decide +kernel, rfl, by decide +kernel, by decide +kernel⟩
  have two : Based preface (copyAt "20F") body (copyStart "20F") 0x20F :=
    ⟨by decide +kernel, by decide +kernel, rfl, by decide +kernel, by decide +kernel⟩
  have hrun₁ : ∃ old, (assemble {} "old.asm" (preface ++ copyAt "1000" :: body)).result = .ok old ∧
      old.program.text = [⟨"001006"⟩, ⟨"480000"⟩, ⟨"000005"⟩, ⟨"4C0000"⟩] :=
    ⟨_, rfl, by decide +kernel⟩
  have hrun₂ : ∃ new, (assemble {} "new.asm" (preface ++ copyAt "20F" :: body)).result = .ok new ∧
      new.program.text = [⟨"000215"⟩, ⟨"480000"⟩, ⟨"000005"⟩, ⟨"4C0000"⟩] :=
    ⟨_, rfl, by decide +kernel⟩
  obtain ⟨old, hold, htext₁⟩ := hrun₁
  obtain ⟨new, hnew, htext₂⟩ := hrun₂
  have hmoved := (relocation "old.asm" "new.asm" hlimit one two rfl).2 old new hold hnew
  exact ⟨hlimit, one, two, rfl, old, new, hold, hnew, htext₁, htext₂, hmoved⟩

end TwoPass
