import TwoPass.Proofs.Acceptance
import TwoPass.Proofs.Strictness

/-
  How many warnings a source gets that is assembled. In the first pass a label either enters the
  table or gives a warning, so warnings and symbols together grow by one with each label
  (`Scan.step_warnings`). In the second pass an instruction gives a warning if the table does not
  have its operand (`Generation.step_warnings`). So both kinds are counted from the lines alone
  (`warnings_of_assemble`).
-/

namespace TwoPass

open Source

/-- How many of some notices are warnings. -/
def warnings (notices : List Notice) : Nat := notices.countP Notice.isWarning

theorem warnings_append (before after : List Notice) :
    warnings (before ++ after) = warnings before + warnings after := List.countP_append

variable {options : Options}

/-! ## The first pass -/

namespace Scan

variable {s s' : Scan}

theorem define_warnings {location : Location} {st : Statement} {label : Text}
    (h : s.define options location st label = .ok s') :
    warnings s'.notices + s'.layout.symbols.size =
      warnings s.notices + s.layout.symbols.size + 1 := by
  unfold define at h
  cases hf : s.layout.symbols.find? label with
  | none =>
    rw [SymbolTable.define_of_none hf] at h
    cases h
    simp only [SymbolTable.size, List.length_append, List.length_singleton]
    omega
  | some existing =>
    rw [SymbolTable.define_of_some hf] at h
    dsimp only at h
    split_ifs at h
    cases h
    rw [warnings_append]
    show warnings s.notices + 1 + s.layout.symbols.size = _
    omega

/-- The label of a statement enters the table or gives a warning. -/
theorem enterLabel_warnings {location : Location} {st : Statement}
    (h : s.enterLabel options location st = .ok s') :
    warnings s'.notices + s'.layout.symbols.size =
      warnings s.notices + s.layout.symbols.size + st.label.toList.length := by
  unfold enterLabel at h
  cases hl : st.label with
  | none =>
    rw [hl] at h
    cases h
    rfl
  | some label =>
    rw [hl] at h
    exact define_warnings h

theorem statement_warnings {location : Location} {kind : LineKind} {st : Statement}
    (h : s.statement options location kind st = .ok s') :
    warnings s'.notices + s'.layout.symbols.size =
      warnings s.notices + s.layout.symbols.size + st.defined.toList.length := by
  unfold Statement.defined
  by_cases ho : st.operation = .directive .start
  · rw [statement_start ho] at h
    obtain ⟨address, -, h⟩ := bind_eq_ok h
    cases h
    rw [if_pos ho]
    rfl
  · rw [statement_plain ho] at h
    obtain ⟨s₁, hlabel, h⟩ := bind_eq_ok h
    obtain ⟨next, -, h⟩ := bind_eq_ok h
    cases h
    rw [if_neg ho, ← enterLabel_warnings (stop_eq_ok_iff.mp hlabel)]

/-- Warnings and symbols grow by one with each label. -/
theorem step_warnings {line : Line} (h : s.step options line = .ok s') :
    warnings s'.notices + s'.layout.symbols.size =
      warnings s.notices + s.layout.symbols.size + (label? line.raw).toList.length := by
  rcases step_cases s options line with ⟨s₁, he, ⟨hb, hl, -⟩, -⟩ | ⟨i, he, -⟩
  · rw [step_readable hb hl.readable] at h
    unfold label?
    cases hst : statement? line.raw with
    | none =>
      rw [hst] at h
      cases h
      rfl
    | some st =>
      rw [hst] at h
      show _ = _ + (st.place line.location).defined.toList.length
      exact statement_warnings h
  · cases he.symm.trans h

theorem run_warnings {source : List Line} (h : source.foldlM (step options) s = .ok s') :
    warnings s'.notices + s'.layout.symbols.size =
      warnings s.notices + s.layout.symbols.size + (labels (source.map Line.raw)).length := by
  induction source generalizing s with
  | nil =>
    cases h
    rfl
  | cons line rest ih =>
    rw [List.foldlM_cons] at h
    obtain ⟨s₁, hstep, h⟩ := bind_eq_ok h
    have hline := step_warnings hstep
    have hrest := ih h
    rw [List.map_cons, labels_cons, List.length_append]
    omega

end Scan

/-- The first pass warns of each label that is defined again. -/
theorem layOut_warnings {file : Text} {lines : List Text} {s : Scan}
    (h : layOut options (numberLines file lines) = .ok s) :
    warnings s.notices + (labels lines).eraseDups.length = (labels lines).length := by
  have hrun := Scan.run_warnings h
  rw [numberLines_raw] at hrun
  have hsize : s.layout.symbols.size = (labels lines).eraseDups.length := by
    rw [← layOut_names h, SymbolTable.names, List.length_map]
    rfl
  rw [← hsize, hrun]
  exact Nat.zero_add _

/-! ## The second pass -/

/-- How many of some names a table does not have. -/
def SymbolTable.missing (t : SymbolTable) (names : List Text) : Nat :=
  names.countP fun name => !t.contains name

theorem Statement.target_warnings {st : Statement} {location : Location} {symbols : SymbolTable}
    {m : Mnemonic} {found : Int × List Notice}
    (h : st.target options location symbols m = .ok found) :
    warnings found.2 = symbols.missing (if m = .rsub then none else st.operand).toList := by
  unfold target at h
  by_cases hm : m = .rsub
  · subst hm
    cases h
    rfl
  · have ht : m.takesOperand = true := by simp [Mnemonic.takesOperand, hm]
    rw [if_pos ht] at h
    rw [if_neg hm]
    cases ho : st.operand with
    | none =>
      rw [ho] at h
      cases h
    | some operand =>
      rw [ho] at h
      dsimp only at h
      unfold SymbolTable.missing SymbolTable.contains
      rw [Option.toList_some, List.countP_singleton]
      cases hf : symbols.find? operand with
      | some symbol =>
        rw [hf] at h
        cases h
        rfl
      | none =>
        rw [hf] at h
        dsimp only at h
        split_ifs at h
        cases h
        rfl

/-- An instruction gives a warning if the table does not have its operand. -/
theorem Statement.encode_warnings {st : Statement} {location : Location} {symbols : SymbolTable}
    {encoded : Text × List Notice} (h : st.encode options location symbols = .ok encoded) :
    warnings encoded.2 = symbols.missing st.relocated.toList := by
  unfold encode at h
  unfold relocated
  cases ho : st.operation with
  | instruction m =>
    rw [ho] at h
    obtain ⟨found, hfound, h⟩ := bind_eq_ok h
    cases h
    exact target_warnings hfound
  | unknown name =>
    rw [ho] at h
    cases h
  | directive d =>
    rw [ho] at h
    cases d with
    | word | byte =>
      obtain ⟨operand, -, h⟩ := bind_eq_ok h
      obtain ⟨code, -, h⟩ := bind_eq_ok h
      cases h
      rfl
    | _ =>
      cases h
      rfl

namespace Generation

variable {g g' : Generation} {layout : Layout} {file : Text}

theorem emit_warnings {symbols : SymbolTable} {location : Location} {kind : LineKind}
    {st : Statement} (h : g.emit options symbols location kind st = .ok g') :
    warnings g'.notices = warnings g.notices + symbols.missing st.relocated.toList ∧
      g'.program.finish = g.program.finish := by
  unfold emit at h
  obtain ⟨-, -, h⟩ := bind_eq_ok h
  obtain ⟨encoded, hencoded, h⟩ := bind_eq_ok h
  obtain ⟨next, -, h⟩ := bind_eq_ok h
  cases h
  rw [← Statement.encode_warnings (stop_eq_ok_iff.mp hencoded)]
  refine ⟨warnings_append _ _, ?_⟩
  simp only [list]
  split <;> rfl

theorem start_finish {final line : Int} {st : Statement} (h : g.start final line st = .ok g') :
    g'.program.finish = g.program.finish := by
  unfold start at h
  split_ifs at h
  · cases h
  · obtain ⟨address, -, h⟩ := bind_eq_ok h
    cases h
    rfl

theorem finish_isSome {location : Location} {st : Statement} (h : g.finish location st = .ok g') :
    g'.program.finish.isSome = true := by
  unfold finish at h
  split at h
  · cases h
  · cases h
    rfl

/-- A statement warns of its operand if the table does not have it, and only END ends. -/
theorem take_warnings {location : Location} {kind : LineKind} {st : Statement}
    (h : g.take options layout location kind st = .ok g') :
    warnings g'.notices = warnings g.notices + layout.symbols.missing st.relocated.toList ∧
      g'.program.finish.isSome =
        (g.program.finish.isSome || decide (st.operation = .directive .finish)) := by
  unfold take at h
  split_ifs at h with hstart hfin
  · rw [start_notices h, start_finish h, Statement.relocated, hstart]
    exact ⟨rfl, (Bool.or_false _).symm⟩
  · rw [finish_notices h, finish_isSome h, warnings_append, Statement.relocated, hfin]
    exact ⟨rfl, (Bool.or_true _).symm⟩
  · obtain ⟨hwarnings, hfinish⟩ := emit_warnings h
    rw [hfinish, decide_eq_false hfin, Bool.or_false]
    exact ⟨hwarnings, rfl⟩

theorem step_warnings {line : Line} (hr : Readable line.raw)
    (h : g.step options layout line = .ok g') :
    warnings g'.notices =
      warnings g.notices + layout.symbols.missing (relocations [line.raw]) ∧
    g'.program.finish.isSome = (g.program.finish.isSome || isEnd line.raw) := by
  rw [step_readable hr] at h
  cases hst : statement? line.raw with
  | none =>
    have hone : relocations [line.raw] = [] := by
      simp only [relocations, List.filterMap_cons, hst, List.filterMap_nil]
    rw [hst] at h
    cases h
    rw [hone, isEnd, holds_remark hst, Bool.or_false]
    exact ⟨rfl, rfl⟩
  | some st =>
    have hone : relocations [line.raw] = st.relocated.toList := by
      simp only [relocations, List.filterMap_cons, hst, List.filterMap_nil]
      cases st.relocated <;> rfl
    rw [hst] at h
    rw [hone, isEnd, holds_of_statement hst]
    show _ = _ + layout.symbols.missing (st.place line.location).relocated.toList ∧
      _ = (_ || decide ((st.place line.location).operation = _))
    exact take_warnings h

/-- A run warns of each operand before END that the table does not have. -/
theorem run_warnings {source : List Line} (hl : ∀ line ∈ source, Readable line.raw)
    (hf : g.program.finish = none) (h : run options layout file g source = .ok g') :
    warnings g'.notices = warnings g.notices +
      layout.symbols.missing (relocations ((upToEnd source).map Line.raw)) := by
  induction source generalizing g with
  | nil => cases h
  | cons line rest ih =>
    rw [List.forall_mem_cons] at hl
    rw [run] at h
    obtain ⟨g₁, hstep, h⟩ := bind_eq_ok h
    obtain ⟨hline, hfin⟩ := step_warnings hl.1 hstep
    rw [hf, Option.isSome_none, Bool.false_or] at hfin
    rw [hfin] at h
    rw [upToEnd]
    split_ifs at h ⊢ with hend
    · cases h
      exact hline
    · have hnone : g₁.program.finish = none := by
        rw [← Option.not_isSome_iff_eq_none, hfin]
        exact hend
      rw [List.map_cons, ← List.singleton_append, relocations_append, ih hl.2 hnone h, hline]
      unfold SymbolTable.missing
      rw [List.countP_append, Nat.add_assoc]

end Generation

/-! ## Both passes -/

/-- A source that is assembled gets a warning for each label that is defined again, and one for each
    operand before END that no line defines. -/
theorem warnings_of_assemble {file : Text} {lines : List Text} {done : Assembly}
    (h : (assemble options file lines).result = .ok done) :
    warnings (assemble options file lines).notices + (labels lines).eraseDups.length =
      (labels lines).length + (relocations (beforeEnd lines)).countP (· ∉ labels lines) := by
  obtain ⟨s, g, hpasses, -⟩ := exists_passes h
  have hl : ∀ line ∈ numberLines file lines, Readable line.raw := by
    intro line hline
    exact ((fits_iff.mp (layOut_fits hpasses.first)).1 _ (List.mem_map_of_mem hline)).readable
  have hfirst := layOut_warnings hpasses.first
  have hsecond := Generation.run_warnings hl rfl hpasses.second
  rw [relocations_upToEnd, numberLines_raw] at hsecond
  have hmissing : s.layout.symbols.missing (relocations (beforeEnd lines)) =
      (relocations (beforeEnd lines)).countP (· ∉ labels lines) := by
    apply List.countP_congr
    intro name _
    simp [← layOut_contains_iff hpasses.first]
  have hempty : warnings ({} : Generation).notices = 0 := rfl
  have hlaid : ∀ symbols load final, warnings [.laidOut symbols load final] = 0 := fun _ _ _ => rfl
  have hgenerated : ∀ texts modifications, warnings [.generated texts modifications] = 0 :=
    fun _ _ => rfl
  rw [hpasses.assemble_eq]
  unfold Outcome.ofPasses
  simp only [warnings_append, hlaid, hgenerated]
  omega

end TwoPass
