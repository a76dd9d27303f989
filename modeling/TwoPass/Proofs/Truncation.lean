import TwoPass.Proofs.Accounting

/-
  Lines behind END. The second pass stops at END, the first one does not: it goes on to the end of
  the source, so the lines behind END count for the length of the program and define labels that
  the lines before END may use. Nothing else of them is seen. `truncation` compares a source with
  the one that ends at END: it has the same header but for the length, the same modifications, and
  the same codes but for operands that are defined behind END only, which stand for zero then.
-/

namespace TwoPass

open Source Object

namespace Source

/-- The lines up to the first END, which is among them. -/
def cutAtEnd (lines : List Text) : List Text := lines.take ((beforeEnd lines).length + 1)

/-- An instruction whose operand is defined behind END only. -/
def Stranded (lines : List Text) (st : Statement) : Prop :=
  ∃ name, st.relocated = some name ∧ name ∈ labels lines ∧ name ∉ labels (cutAtEnd lines)

variable {lines : List Text}

/-! ## The lines up to END -/

/-- A label keeps its address whatever follows the line that defines it. -/
theorem labelAddress_append {before : List Text} {label : Text} (h : label ∈ labels before)
    (after : List Text) :
    labelAddress (before ++ after) label = labelAddress before label := by
  unfold labelAddress
  rw [List.findIdx?_append, findIdx?_defines h]
  show countFrom 0 ((before ++ after).take _) = countFrom 0 (before.take _)
  rw [List.take_append_of_le_length (Nat.le_of_lt (findIdx_defines_lt h))]

theorem cutAtEnd_append_rest (o : Outline lines) : lines = cutAtEnd lines ++ o.rest := by
  rw [cutAtEnd, o.take_end, List.append_assoc]
  exact o.cut_beforeEnd

theorem beforeEnd_cutAtEnd (o : Outline lines) : beforeEnd (cutAtEnd lines) = beforeEnd lines := by
  rw [cutAtEnd, o.take_end, beforeEnd_append fun _ => isEnd_of_mem_beforeEnd,
    beforeEnd_end o.isEnd, List.append_nil]

/-- What a name stands for when the lines behind END are gone. -/
theorem labelAddress_cutAtEnd (o : Outline lines) (name : Text) :
    labelAddress (cutAtEnd lines) name =
      if name ∈ labels (cutAtEnd lines) then labelAddress lines name else 0 := by
  split
  · rename_i hname
    conv => rhs; rw [cutAtEnd_append_rest o]
    rw [labelAddress_append hname]
  · rename_i hname
    exact labelAddress_undefined hname

/-- Without the lines behind END an accepted source is still accepted, unless undefined names are
    rejected and a name has lost its definition. -/
theorem admissible_cutAtEnd_iff {options : Options} (h : Admissible options lines)
    (o : Outline lines) : Admissible options (cutAtEnd lines) ↔
      (options.rejectUndefined = true →
        ∀ name ∈ relocations (beforeEnd lines), name ∈ labels (cutAtEnd lines)) := by
  constructor
  · intro hcut
    have hresolved := hcut.resolved
    rwa [beforeEnd_cutAtEnd o] at hresolved
  · intro hresolved
    have hfits := h.fits
    rw [cutAtEnd_append_rest o, fits_append] at hfits
    have hassembled : Assembled false (cutAtEnd lines) := by
      have hend : o.endLine ∈ cutAtEnd lines := by
        rw [cutAtEnd, o.take_end]
        exact List.mem_append_right _ List.mem_cons_self
      rw [assembled_iff, beforeEnd_cutAtEnd o]
      exact ⟨⟨o.endLine, hend, o.isEnd⟩, (assembled_iff.mp h.assembled).2⟩
    refine ⟨hfits.1, hassembled, fun hd => ?_, by rwa [beforeEnd_cutAtEnd o]⟩
    have hdistinct := h.distinct hd
    rw [cutAtEnd_append_rest o, labels_append] at hdistinct
    exact (List.nodup_append.mp hdistinct).1

/-- The outline without the lines behind END. -/
def Outline.truncate (o : Outline lines) : Outline (cutAtEnd lines) :=
  { o with
    rest := []
    cut := by
      rw [cutAtEnd, o.take_end, o.beforeEnd_eq, List.append_assoc, List.cons_append] }

theorem Outline.codes_coded (o : Outline lines) :
    o.codes = (coded (beforeEnd lines)).map (Statement.code (labelAddress lines)) := by
  rw [Outline.codes, ← o.beforeEnd_eq, codes_eq_coded]

theorem Outline.codes_truncate (o : Outline lines) : o.truncate.codes =
    (coded (beforeEnd lines)).map (Statement.code (labelAddress (cutAtEnd lines))) := by
  rw [o.truncate.codes_coded, beforeEnd_cutAtEnd o]

/-! ## Object texts -/

/-- The part of an object text that the lines behind END can change, as lines: the digits of the
    length, then the text records. -/
def Outline.core (o : Outline lines) : List Text :=
  Hex.signed 6 o.length :: o.codes.map ('T' :: ·)

theorem Outline.objectText_eq (o : Outline lines) : o.objectText =
    'H' :: (o.name.take 6).rightpad 6 ' ' ++ Hex.padded 6 o.load ++
    (o.core.flatMap (· ++ ['\n']) ++
    ((relocations o.opening).flatMap (fun symbol =>
      'M' :: Hex.padded 6 0 ++ ['0', '4', '+'] ++ symbol ++ ['\n']) ++
    (relocations o.middle).flatMap (fun symbol =>
      'M' :: Hex.padded 6 o.load ++ ['0', '4', '+'] ++ symbol ++ ['\n']) ++
    'E' :: Hex.padded 6 o.load ++ ['\n'])) := by
  unfold objectText core
  rw [List.flatMap_cons, List.flatMap_map]
  simp only [List.append_assoc, List.cons_append]

theorem Outline.objectText_truncate_iff (o : Outline lines) :
    o.truncate.objectText = o.objectText ↔
      o.truncate.core.flatMap (· ++ ['\n']) = o.core.flatMap (· ++ ['\n']) := by
  rw [o.objectText_eq, o.truncate.objectText_eq]
  exact (List.append_right_inj _).trans (List.append_left_inj _)

/-- Where no START follows END, the lines there count for their bytes. -/
theorem countFrom_cutAtEnd (o : Outline lines) (h : ∀ raw ∈ o.rest, isStart raw = false) :
    countFrom 0 lines = countFrom 0 (cutAtEnd lines) + extent o.rest := by
  conv => lhs; rw [cutAtEnd_append_rest o]
  rw [countFrom_append, countFrom_eq_extent h]

theorem Outline.length_truncate (o : Outline lines)
    (h : ∀ raw ∈ o.rest, Source.isStart raw = false) :
    ∃ n : Nat, o.truncate.length = n ∧ o.length = (n + extent o.rest : Nat) := by
  have hno : ∀ raw ∈ o.truncate.rest, Source.isStart raw = false :=
    fun _ hraw => absurd hraw List.not_mem_nil
  have hlength := o.truncate.length_eq hno
  rw [o.truncate.addressAt_eq o.truncate.opening_lt (Nat.le_refl _)] at hlength
  have hcount := countFrom_cutAtEnd o h
  have hlonger : o.length = o.truncate.length + extent o.rest := by
    have hload : o.truncate.load = o.load := rfl
    unfold Outline.length
    omega
  refine ⟨(o.truncate.length).toNat, ?_, ?_⟩
  · omega
  · omega

theorem Outline.core_unbroken (o : Outline lines) (h : Assembled false lines) {n : Nat}
    (hlength : o.length = n) : ∀ l ∈ o.core, ∀ c ∈ l, Text.isLineBreak c = false := by
  intro l hl c hc
  rcases List.mem_cons.mp hl with rfl | hl
  · rw [hlength, Hex.signed_natCast] at hc
    exact Text.isLineBreak_of_isDigit (Hex.isDigit_of_mem_padded hc)
  · obtain ⟨code, hcode, rfl⟩ := List.mem_map.mp hl
    rw [o.codes_coded] at hcode
    obtain ⟨st, hst, rfl⟩ := List.mem_map.mp hcode
    rcases List.mem_cons.mp hc with rfl | hc
    · decide
    · exact Text.isLineBreak_of_isDigit (Statement.isDigit_of_mem_code (h.encodable hst) hc)

theorem map_code_eq_iff {statements : List Statement} (h : ∀ st ∈ statements, st.Encodable)
    (address₁ address₂ : Text → Nat) :
    statements.map (Statement.code address₁) = statements.map (Statement.code address₂) ↔
      ∀ name ∈ statements.filterMap Statement.relocated, address₁ name = address₂ name := by
  rw [List.map_inj_left]
  constructor
  · intro hcodes name hname
    obtain ⟨st, hst, hr⟩ := List.mem_filterMap.mp hname
    exact (Statement.code_eq_iff (h st hst)).mp (hcodes st hst) name hr
  · intro hnames st hst
    apply (Statement.code_eq_iff (h st hst)).mpr
    intro name hr
    exact hnames name (List.mem_filterMap.mpr ⟨st, hst, hr⟩)

/-- The lines behind END are not seen in the object text if they take no bytes and no operand
    stands for another address without them. -/
theorem Outline.objectText_truncate_eq_iff (o : Outline lines)
    (h : ∀ raw ∈ o.rest, Source.isStart raw = false) (ha : Assembled false lines)
    (hcut : Assembled false (cutAtEnd lines)) :
    o.truncate.objectText = o.objectText ↔ extent o.rest = 0 ∧
      ∀ name ∈ relocations (beforeEnd lines),
        name ∉ labels (cutAtEnd lines) → labelAddress lines name = 0 := by
  obtain ⟨n, hshort, hlong⟩ := o.length_truncate h
  -- Digits hold no line break, so the lines of both texts can be told apart again.
  have hcore : o.truncate.core.flatMap (· ++ ['\n']) = o.core.flatMap (· ++ ['\n']) ↔
      o.truncate.core = o.core := by
    refine ⟨fun heq => ?_, congrArg _⟩
    have hlines := congrArg Text.recordLines heq
    rwa [Text.recordLines_ended (o.truncate.core_unbroken hcut hshort),
      Text.recordLines_ended (o.core_unbroken ha hlong)] at hlines
  have hcodes : o.truncate.codes = o.codes ↔ ∀ name ∈ relocations (beforeEnd lines),
      name ∉ labels (cutAtEnd lines) → labelAddress lines name = 0 := by
    rw [o.codes_truncate, o.codes_coded, map_code_eq_iff fun st => ha.encodable,
      ← relocations_eq_coded]
    refine forall₂_congr fun name _ => ?_
    rw [labelAddress_cutAtEnd o]
    by_cases hname : name ∈ labels (cutAtEnd lines)
    · simp [hname]
    · simp [hname, eq_comm]
  rw [o.objectText_truncate_iff, hcore, core, core, List.cons.injEq, hshort, hlong,
    Hex.signed_natCast, Hex.signed_natCast, Hex.padded_inj, List.map_inj_right (by simp), hcodes]
  refine and_congr_left fun _ => ?_
  omega

end Source

/-! ## Layouts -/

theorem Layout.behind_plain (l : Layout) {line : Line} (h : isStart line.raw = false) :
    (l.behind line).load = l.load ∧ (l.behind line).name = l.name := by
  unfold behind
  cases hst : statement? line.raw with
  | none => exact ⟨rfl, rfl⟩
  | some st =>
    rw [isStart, holds_of_statement hst, decide_eq_false_iff_not] at h
    simp only [if_neg h, and_self]

/-- Only START gives a layout its load address and its name. -/
theorem Layout.foldl_behind_plain (l : Layout) {source : List Line}
    (h : ∀ line ∈ source, isStart line.raw = false) :
    (source.foldl behind l).load = l.load ∧ (source.foldl behind l).name = l.name := by
  induction source generalizing l with
  | nil => exact ⟨rfl, rfl⟩
  | cons line rest ih =>
    rw [List.forall_mem_cons] at h
    obtain ⟨hload, hname⟩ := l.behind_plain h.1
    obtain ⟨hload', hname'⟩ := ih (l.behind line) h.2
    exact ⟨hload'.trans hload, hname'.trans hname⟩

section Assembly

variable {options : Options} {file : Text} {lines : List Text} {done short : Assembly}

/-- What is reported of a source, apart from its length, is settled at END unless START follows. -/
theorem layout_cutAtEnd (h : (assemble options file lines).result = .ok done)
    (hshort : (assemble options file (cutAtEnd lines)).result = .ok short) (o : Outline lines)
    (hrest : ∀ raw ∈ o.rest, isStart raw = false) :
    short.layout.name = done.layout.name ∧ short.layout.load = done.layout.load ∧
      done.layout.length = short.layout.length + extent o.rest := by
  obtain ⟨s, hs, hlayout⟩ := assemble_layout h
  obtain ⟨s', hs', hlayout'⟩ := assemble_layout hshort
  have hsource : numberLines file lines = numberLines file (cutAtEnd lines) ++
      (numberLines file lines).drop ((beforeEnd lines).length + 1) := by
    rw [cutAtEnd, ← numberLines_take, List.take_append_drop]
  have hplain : ∀ line ∈ (numberLines file lines).drop ((beforeEnd lines).length + 1),
      isStart line.raw = false := by
    intro line hline
    apply hrest
    have hraws := congrArg (List.map Line.raw) hsource
    rw [List.map_append, numberLines_raw, numberLines_raw] at hraws
    rw [List.append_cancel_left ((cutAtEnd_append_rest o).symm.trans hraws)]
    exact List.mem_map_of_mem hline
  have hfold : s.layout = ((numberLines file lines).drop ((beforeEnd lines).length + 1)).foldl
      Layout.behind s'.layout := by
    rw [layOut_layout hs, layOut_layout hs', ← List.foldl_append, ← hsource]
  obtain ⟨hload, hname⟩ := s'.layout.foldl_behind_plain hplain
  rw [← hfold] at hload hname
  have hfinal := layOut_final hs
  have hfinal' := layOut_final hs'
  rw [numberLines_raw] at hfinal hfinal'
  have hcount := countFrom_cutAtEnd o hrest
  rw [← hlayout, ← hlayout']
  refine ⟨hname.symm, hload.symm, ?_⟩
  unfold Layout.length
  omega

/-- How the program of the lines up to END compares with that of all lines. -/
structure Truncated (lines : List Text) (done short : Assembly) : Prop where
  header : ∃ h₁ h₂, done.program.header = some h₁ ∧ short.program.header = some h₂ ∧
    h₂.name = h₁.name ∧ h₂.load = h₁.load
  count : short.program.text.length = done.program.text.length
  /-- An operand that is defined behind END only stands for zero. -/
  text : ∀ (i : Nat) st t₁ t₂, (coded (beforeEnd lines))[i]? = some st →
    done.program.text[i]? = some t₁ → short.program.text[i]? = some t₂ →
    (¬ Stranded lines st → t₂ = t₁) ∧ (Stranded lines st → t₂.code = st.code fun _ => 0)
  modifications : short.program.modifications = done.program.modifications
  finish : short.program.finish = done.program.finish

/-- The same where no START follows END. -/
structure Shortened (lines rest : List Text) (done short : Assembly) : Prop where
  name : short.layout.name = done.layout.name
  load : short.layout.load = done.layout.load
  length : done.layout.length = short.layout.length + extent rest
  header : ∃ h₁ h₂, done.program.header = some h₁ ∧ short.program.header = some h₂ ∧
    h₁.length = h₂.length + extent rest
  render : short.program.render = done.program.render ↔ extent rest = 0 ∧
    ∀ name ∈ relocations (beforeEnd lines),
      name ∉ labels (cutAtEnd lines) → labelAddress lines name = 0

theorem truncated_of_assemble (h : (assemble options file lines).result = .ok done)
    (hshort : (assemble options file (cutAtEnd lines)).result = .ok short) (o : Outline lines) :
    Truncated lines done short := by
  have hassembled := (assemble_isOk_iff_admissible.mp ⟨done, h⟩).assembled
  have hprogram := program_of_assemble h o
  have hprogram' := program_of_assemble hshort o.truncate
  have htext : done.program.text = (coded (beforeEnd lines)).map (fun st =>
      { code := st.code (labelAddress lines) }) := by
    rw [hprogram, Outline.program, o.codes_coded, List.map_map]
    rfl
  have htext' : short.program.text = (coded (beforeEnd lines)).map (fun st =>
      { code := st.code (labelAddress (cutAtEnd lines)) }) := by
    rw [hprogram', Outline.program, o.codes_truncate, List.map_map]
    rfl
  refine ⟨⟨_, _, header_of_assemble h o, header_of_assemble hshort o.truncate, rfl, rfl⟩, ?_, ?_,
    by rw [hprogram, hprogram']; rfl, by rw [hprogram, hprogram']; rfl⟩
  · rw [htext, htext', List.length_map, List.length_map]
  · intro i st t₁ t₂ hst ht₁ ht₂
    rw [htext, List.getElem?_map, hst] at ht₁
    rw [htext', List.getElem?_map, hst] at ht₂
    cases ht₁
    cases ht₂
    have hencodable := hassembled.encodable (List.mem_of_getElem? hst)
    constructor
    · intro hno
      apply congrArg TextRecord.mk
      apply (Statement.code_eq_iff hencodable).mpr
      intro name hr
      rw [labelAddress_cutAtEnd o]
      split
      · rfl
      · rename_i hname
        have hundefined : name ∉ labels lines := fun hl => hno ⟨name, hr, hl, hname⟩
        rw [labelAddress_undefined hundefined]
    · rintro ⟨name, hr, -, hname⟩
      apply (Statement.code_eq_iff hencodable).mpr
      intro name' hr'
      rw [← Option.some.inj (hr.symm.trans hr')]
      exact labelAddress_undefined hname

/-- A source without the lines behind END: it is assembled like the whole one, unless undefined
    names are rejected and an operand has lost its definition, and the programs differ only in what
    the first pass counts and defines behind END. -/
theorem truncation (h : (assemble options file lines).result = .ok done) :
    ∃ o : Outline lines,
      ((∃ short, (assemble options file (cutAtEnd lines)).result = .ok short) ↔
        (options.rejectUndefined = true →
          ∀ name ∈ relocations (beforeEnd lines), name ∈ labels (cutAtEnd lines))) ∧
      ∀ short, (assemble options file (cutAtEnd lines)).result = .ok short →
        Truncated lines done short ∧
        ((∀ raw ∈ o.rest, isStart raw = false) → Shortened lines o.rest done short) := by
  have hadmissible := assemble_isOk_iff_admissible.mp ⟨done, h⟩
  obtain ⟨o⟩ := Outline.exists_of_assembled hadmissible.assembled
  refine ⟨o, ?_, ?_⟩
  · rw [assemble_isOk_iff_admissible, admissible_cutAtEnd_iff hadmissible o]
  · intro short hshort
    refine ⟨truncated_of_assemble h hshort o, fun hrest => ?_⟩
    have hcut := (assemble_isOk_iff_admissible.mp ⟨short, hshort⟩).assembled
    obtain ⟨hname, hload, hlength⟩ := layout_cutAtEnd h hshort o hrest
    obtain ⟨n, hn, hn'⟩ := o.length_truncate hrest
    refine ⟨hname, hload, hlength,
      ⟨_, _, header_of_assemble h o, header_of_assemble hshort o.truncate, ?_⟩, ?_⟩
    · show o.length = o.truncate.length + extent o.rest
      omega
    · rw [program_of_assemble h o, program_of_assemble hshort o.truncate, o.render_program,
        o.truncate.render_program]
      exact o.objectText_truncate_eq_iff hrest hadmissible.assembled hcut

end Assembly

/-- An operand that is defined behind END only. -/
def Source.appended : List Text := [
  "PROG  START 1000",
  "      LDA   LATE",
  "      RSUB",
  "      END",
  "LATE  WORD  1"]

theorem truncation_appended : ∃ done, (assemble {} "prog.asm" appended).result = .ok done ∧
    done.layout.length = 9 ∧ done.program.text = [⟨"001006"⟩, ⟨"4C0000"⟩] ∧
    ∃ o : Outline appended,
      ((∃ short, (assemble {} "prog.asm" (cutAtEnd appended)).result = .ok short) ↔
        (({} : Options).rejectUndefined = true →
          ∀ name ∈ relocations (beforeEnd appended), name ∈ labels (cutAtEnd appended))) ∧
      ∀ short, (assemble {} "prog.asm" (cutAtEnd appended)).result = .ok short →
        Truncated appended done short ∧
        ((∀ raw ∈ o.rest, isStart raw = false) → Shortened appended o.rest done short) := by
  have hrun : ∃ done, (assemble {} "prog.asm" appended).result = .ok done ∧
      done.layout.length = 9 ∧ done.program.text = [⟨"001006"⟩, ⟨"4C0000"⟩] :=
    ⟨_, rfl, by decide +kernel⟩
  obtain ⟨done, hdone, hlength, htext⟩ := hrun
  exact ⟨done, hdone, hlength, htext, truncation hdone⟩

/-- An instruction behind END. -/
def Source.trailing : List Text := [
  "PROG  START 1000",
  "      RSUB",
  "      END",
  "      RSUB"]

/-- Lines behind END are not ignored: they count for the length. -/
theorem not_ignored_behind_end : ¬ ∀ (options : Options) (file : Text) (lines : List Text) done,
    (assemble options file lines).result = .ok done →
    ∃ short, (assemble options file (cutAtEnd lines)).result = .ok short ∧
      short.program.render = done.program.render ∧ short.layout.name = done.layout.name ∧
      short.layout.load = done.layout.load ∧ short.layout.length = done.layout.length := by
  intro hall
  have hrun : ∃ done, (assemble {} "prog.asm" trailing).result = .ok done ∧
      done.layout.length = 6 := ⟨_, rfl, by decide +kernel⟩
  obtain ⟨done, hdone, hlength⟩ := hrun
  obtain ⟨short, hshort, -, -, -, hsame⟩ := hall {} "prog.asm" trailing done hdone
  have hcut : (assemble {} "prog.asm" (cutAtEnd trailing)).result.toOption.map
      (fun short => short.layout.length) = some 3 := by decide +kernel
  rw [hshort] at hcut
  have hthree : short.layout.length = 3 := Option.some.inj hcut
  omega

end TwoPass
