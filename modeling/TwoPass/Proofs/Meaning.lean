import TwoPass.Proofs.SecondPass

/-
  What a source means. An `Outline` cuts the lines of a source at START and at the first END, and
  `Outline.objectText` spells out the object program of these lines: addresses are counted from
  the lines alone (`addressAt`), and an operand stands for the first line of the whole source that
  defines it (`labelAddress`), whichever side of START or END that line is on. Two passes over the
  source write this text (`render_eq_objectText`).
-/

namespace TwoPass

open Source Object

/-! ## The records of plain lines -/

namespace Source

/-- The codes of lines, those that are empty left out. -/
def codes (address : Text → Nat) (lines : List Text) : List Text :=
  ((lines.filterMap statement?).map (Statement.code address)).filter (· ≠ [])

/-- The names by which the codes of lines are to be adjusted. -/
def relocations (lines : List Text) : List Text :=
  (lines.filterMap statement?).filterMap Statement.relocated

theorem codes_append (address : Text → Nat) (before after : List Text) :
    codes address (before ++ after) = codes address before ++ codes address after := by
  unfold codes
  rw [List.filterMap_append, List.map_append, List.filter_append]

theorem relocations_append (before after : List Text) :
    relocations (before ++ after) = relocations before ++ relocations after := by
  unfold relocations
  rw [List.filterMap_append, List.filterMap_append]

/-- The statements of lines that have a code. -/
def coded (lines : List Text) : List Statement :=
  (lines.filterMap statement?).filter fun st => st.code (fun _ => 0) ≠ []

/-- Which statements have a code is settled before their addresses are. -/
theorem codes_eq_coded (address : Text → Nat) (lines : List Text) :
    codes address lines = (coded lines).map (Statement.code address) := by
  unfold codes coded
  rw [List.filter_map]
  congr 1
  apply List.filter_congr
  intro st _
  simp [Statement.code_eq_nil_iff st address fun _ => 0]

/-- Each code is adjusted at most once, in the order of the codes. -/
theorem relocations_eq_coded (lines : List Text) :
    relocations lines = (coded lines).filterMap Statement.relocated := by
  unfold relocations coded
  rw [List.filterMap_filter]
  congr 1
  funext st
  cases hr : st.relocated with
  | none => simp
  | some name =>
    obtain ⟨m, ho, -⟩ := Statement.relocated_eq_some_iff.mp hr
    simp [Statement.code_instruction_ne_nil ho]

/-- A line of END has no code, and none to adjust. -/
theorem codes_end (address : Text → Nat) {raw : Text} (h : isEnd raw = true) :
    codes address [raw] = [] := by
  obtain ⟨st, hst, ho⟩ := holds_iff.mp h
  have hcode : st.code address = [] := by rw [Statement.code, ho]
  simp [codes, hst, hcode]

theorem relocations_end {raw : Text} (h : isEnd raw = true) : relocations [raw] = [] := by
  obtain ⟨st, hst, ho⟩ := holds_iff.mp h
  have hr : st.relocated = none := by rw [Statement.relocated, ho]
  simp [relocations, hst, hr]

/-- Neither START nor END. -/
def IsPlain (raw : Text) : Prop := isStart raw = false ∧ isEnd raw = false

end Source

/-- A program with the records of plain lines behind its own. -/
def ObjectProgram.extend (address : Text → Nat) (load : Int) (p : ObjectProgram)
    (lines : List Text) : ObjectProgram :=
  { p with
    text := p.text ++ (codes address lines).map TextRecord.mk
    modifications := p.modifications ++ (relocations lines).map fun symbol =>
      { start := load, halfBytes := addressHalfBytes, symbol } }

theorem ObjectProgram.extend_append (address : Text → Nat) (load : Int) (p : ObjectProgram)
    (before after : List Text) : p.extend address load (before ++ after) =
      (p.extend address load before).extend address load after := by
  unfold extend
  simp only [codes_append, relocations_append, List.map_append, List.append_assoc]

namespace Generation

theorem emitted_program (address : Text → Nat) (g : Generation) (line : Int) {st : Statement}
    {raw : Text} (h : statement? raw = some st) :
    (g.emitted address line st).program = g.program.extend address (g.load.getD 0) [raw] := by
  have hone : [raw].filterMap statement? = [st] := by rw [List.filterMap_cons, h]; rfl
  unfold emitted ObjectProgram.extend codes relocations
  rw [hone]
  have hmods : [st].filterMap Statement.relocated = st.relocated.toList := by
    cases hr : st.relocated <;> simp [hr]
  rw [hmods]
  by_cases hc : st.code address = []
  · simp [hc, list, ObjectProgram.addModifications]
  · simp [hc, list, ObjectProgram.addModifications, ObjectProgram.addText]

theorem behind_statement (final : Int) (address : Text → Nat) (g : Generation) {line : Line}
    {st : Statement} (h : statement? line.raw = some st) :
    g.behind final address line = g.taken final address line.location.line st := by
  unfold behind
  rw [h]

theorem behind_plain (final : Int) (address : Text → Nat) (g : Generation) {line : Line}
    (h : IsPlain line.raw) :
    (g.behind final address line).program =
      g.program.extend address (g.load.getD 0) [line.raw] ∧
    (g.behind final address line).load = g.load := by
  cases hst : statement? line.raw with
  | none => simp [behind, hst, list, ObjectProgram.extend, codes, relocations]
  | some st =>
    obtain ⟨hs, hf⟩ := h
    rw [isStart, holds_of_statement hst, decide_eq_false_iff_not] at hs
    rw [isEnd, holds_of_statement hst, decide_eq_false_iff_not] at hf
    rw [behind_statement final address g hst, taken, if_neg hs, if_neg hf]
    exact ⟨emitted_program address g line.location.line hst, rfl⟩

/-- Plain lines add their records and leave the rest of the program alone. -/
theorem through_plain (final : Int) (address : Text → Nat) (g : Generation) {source : List Line}
    (h : ∀ line ∈ source, IsPlain line.raw) :
    (through final address g source).program =
      g.program.extend address (g.load.getD 0) (source.map Line.raw) ∧
    (through final address g source).load = g.load := by
  induction source generalizing g with
  | nil => simp [through, ObjectProgram.extend, codes, relocations]
  | cons line rest ih =>
    rw [List.forall_mem_cons] at h
    obtain ⟨hprogram, hload⟩ := behind_plain final address g h.1
    obtain ⟨hp, hl⟩ := ih (g.behind final address line) h.2
    refine ⟨?_, hl.trans hload⟩
    rw [hload, hprogram, ← ObjectProgram.extend_append] at hp
    exact hp

theorem behind_start (final : Int) (address : Text → Nat) (g : Generation) {line : Line}
    {st : Statement} (hst : statement? line.raw = some st)
    (ho : st.operation = .directive .start) :
    g.behind final address line = g.started final line.location.line st := by
  rw [behind_statement final address g hst, taken, if_pos ho]

theorem behind_end (final : Int) (address : Text → Nat) (g : Generation) {line : Line}
    (h : isEnd line.raw = true) :
    (g.behind final address line).program = g.program.setEnd (g.load.getD 0) := by
  obtain ⟨st, hst, ho⟩ := holds_iff.mp h
  rw [behind_statement final address g hst, taken, ho]
  rfl

/-- The program behind the lines up to END, START among them. -/
theorem through_cut {final : Int} {address : Text → Nat} {opening middle : List Line}
    {startLine endLine : Line} {st : Statement} (hopening : ∀ line ∈ opening, IsPlain line.raw)
    (hst : statement? startLine.raw = some st) (ho : st.operation = .directive .start)
    (hmiddle : ∀ line ∈ middle, IsPlain line.raw) (hend : isEnd endLine.raw = true) :
    (through final address {} (opening ++ startLine :: (middle ++ [endLine]))).program =
      (((ObjectProgram.extend address 0 {} (opening.map Line.raw)).setHeader
        { name := st.label.getD [], load := st.loadAddress,
          length := final - st.loadAddress }).extend address st.loadAddress
            (middle.map Line.raw)).setEnd st.loadAddress := by
  -- Before START there is no load address yet, so the modifications there are at zero.
  obtain ⟨hp₁, -⟩ := through_plain final address {} hopening
  obtain ⟨hp₂, hl₂⟩ := through_plain final address
    ((through final address {} opening).started final startLine.location.line st) hmiddle
  rw [through_append, through_cons, through_append, through_cons,
    behind_start final address _ hst ho, through_nil, behind_end final address _ hend, hp₂, hl₂]
  simp only [started, list, hp₁]
  rfl

end Generation

/-! ## Outlines -/

namespace Source

theorem Assembled.middle {lines : List Text} (h : Assembled true lines) :
    ∃ middle raw rest, lines = middle ++ raw :: rest ∧ isEnd raw = true ∧
      ∀ r ∈ middle, IsPlain r := by
  induction lines with
  | nil => exact absurd h id
  | cons raw rest ih =>
    obtain ⟨hal, hrest⟩ := h
    cases hend : isEnd raw with
    | true => exact ⟨[], raw, rest, rfl, hend, nofun⟩
    | false =>
      have hstart : isStart raw = false := by
        rw [← Bool.not_eq_true]
        intro hs
        cases (allowed_iff.mp hal).1 hs
      obtain ⟨middle, e, tail, rfl, he, hm⟩ := ih (hrest hend)
      exact ⟨raw :: middle, e, tail, rfl, he, List.forall_mem_cons.mpr ⟨⟨hstart, hend⟩, hm⟩⟩

theorem Assembled.opening {lines : List Text} (h : Assembled false lines) :
    ∃ opening raw rest, lines = opening ++ raw :: rest ∧ isStart raw = true ∧
      (∀ r ∈ opening, IsPlain r) ∧ Assembled true rest := by
  induction lines with
  | nil => exact absurd h id
  | cons raw rest ih =>
    obtain ⟨hal, hrest⟩ := h
    have hend : isEnd raw = false := by
      rw [← Bool.not_eq_true]
      intro he
      cases (allowed_iff.mp hal).2.1 he
    have hnext := hrest hend
    cases hstart : isStart raw with
    | true =>
      rw [hstart] at hnext
      exact ⟨[], raw, rest, rfl, hstart, nofun, hnext⟩
    | false =>
      rw [hstart] at hnext
      obtain ⟨opening, s, tail, rfl, hs, hm, ht⟩ := ih hnext
      exact ⟨raw :: opening, s, tail, rfl, hs, List.forall_mem_cons.mpr ⟨⟨hstart, hend⟩, hm⟩, ht⟩

/-- A source cut at its START and at its first END. -/
structure Outline (lines : List Text) where
  opening : List Text
  /-- The line of START, and its statement. -/
  startLine : Text
  start : Statement
  middle : List Text
  endLine : Text
  rest : List Text
  cut : lines = opening ++ startLine :: (middle ++ endLine :: rest)
  isStart : statement? startLine = some start ∧ start.operation = .directive .start
  isEnd : isEnd endLine = true
  plain : ∀ raw ∈ opening ++ middle, IsPlain raw

namespace Outline

variable {lines : List Text}

/-- The name of the program. -/
def name (o : Outline lines) : Text := o.start.label.getD []

/-- The address START gives. -/
def load (o : Outline lines) : Nat := o.start.loadAddress

/-- What the counter comes to behind all lines, from the load address. -/
def length (o : Outline lines) : Int := countFrom 0 lines - o.load

/-- The codes of the lines before END. -/
def codes (o : Outline lines) : List Text :=
  Source.codes (labelAddress lines) (o.opening ++ o.startLine :: o.middle)

/-- The object program, spelled out. Codes before START are to be adjusted at address zero. -/
def objectText (o : Outline lines) : Text :=
  'H' :: (o.name.take 6).rightpad 6 ' ' ++ Hex.padded 6 o.load ++ Hex.signed 6 o.length ++
    ['\n'] ++
  o.codes.flatMap (fun code => 'T' :: code ++ ['\n']) ++
  (relocations o.opening).flatMap (fun symbol =>
    'M' :: Hex.padded 6 0 ++ ['0', '4', '+'] ++ symbol ++ ['\n']) ++
  (relocations o.middle).flatMap (fun symbol =>
    'M' :: Hex.padded 6 o.load ++ ['0', '4', '+'] ++ symbol ++ ['\n']) ++
  'E' :: Hex.padded 6 o.load ++ ['\n']

/-- The same as records. -/
def program (o : Outline lines) : ObjectProgram where
  header := some { name := o.name, load := o.load, length := o.length }
  text := o.codes.map TextRecord.mk
  modifications :=
    (relocations o.opening).map (fun symbol =>
      { start := 0, halfBytes := addressHalfBytes, symbol }) ++
    (relocations o.middle).map (fun symbol =>
      { start := o.load, halfBytes := addressHalfBytes, symbol })
  finish := some { entry := o.load }

theorem write_modification (start : Nat) (symbol : Text) :
    Modification.write { start, halfBytes := addressHalfBytes, symbol } =
      'M' :: Hex.padded 6 start ++ ['0', '4', '+'] ++ symbol ++ ['\n'] := by
  have hfour : Hex.signed 2 addressHalfBytes = ['0', '4'] := by decide
  unfold Modification.write
  rw [hfour, Hex.signed_natCast]
  simp only [List.cons_append, List.append_assoc, List.nil_append]
  rfl

theorem render_program (o : Outline lines) : o.program.render = o.objectText := by
  have htext : (o.codes.map TextRecord.mk).flatMap TextRecord.write =
      o.codes.flatMap fun code => 'T' :: code ++ ['\n'] := List.flatMap_map ..
  have hmods : ∀ (start : Nat) (names : List Text),
      (names.map fun symbol => { start, halfBytes := addressHalfBytes, symbol }).flatMap
        Modification.write =
      names.flatMap fun symbol =>
        'M' :: Hex.padded 6 start ++ ['0', '4', '+'] ++ symbol ++ ['\n'] := by
    intro start names
    rw [List.flatMap_map]
    simp only [write_modification]
  have hopening : ((relocations o.opening).map fun symbol =>
        { start := 0, halfBytes := addressHalfBytes, symbol }).flatMap Modification.write =
      (relocations o.opening).flatMap fun symbol =>
        'M' :: Hex.padded 6 0 ++ ['0', '4', '+'] ++ symbol ++ ['\n'] := hmods 0 _
  unfold program objectText ObjectProgram.render ObjectProgram.records
  simp only [Option.toList_some, List.map_append, List.flatten_append, ← List.flatMap_def]
  rw [htext, hmods o.load, hopening]
  simp only [List.flatMap_cons, List.flatMap_nil, List.append_nil, Header.write, EndRecord.write,
    Hex.signed_natCast, List.append_assoc]
  rfl

/-- Lines that are assembled can be cut at START and END. -/
theorem exists_of_assembled (h : Assembled false lines) : Nonempty (Outline lines) := by
  obtain ⟨opening, startLine, tail, rfl, hs, hopening, ht⟩ := h.opening
  obtain ⟨middle, endLine, rest, rfl, he, hmiddle⟩ := ht.middle
  obtain ⟨start, hst, ho⟩ := holds_iff.mp hs
  refine ⟨⟨opening, startLine, start, middle, endLine, rest, rfl, ⟨hst, ho⟩, he, ?_⟩⟩
  intro raw hr
  rcases List.mem_append.mp hr with hr | hr
  · exact hopening raw hr
  · exact hmiddle raw hr

/-- START has no code. -/
theorem codes_eq (o : Outline lines) : o.codes =
    Source.codes (labelAddress lines) o.opening ++ Source.codes (labelAddress lines) o.middle := by
  have hstart : Source.codes (labelAddress lines) [o.startLine] = [] := by
    unfold Source.codes
    simp [o.isStart.1, Statement.code, o.isStart.2]
  unfold codes
  rw [codes_append, ← List.singleton_append, codes_append, hstart, List.nil_append]

theorem upToEnd_cut {opening middle rest : List Line} {startLine endLine : Line}
    (hopening : ∀ line ∈ opening, IsPlain line.raw) (hstart : Source.isStart startLine.raw = true)
    (hmiddle : ∀ line ∈ middle, IsPlain line.raw) (hend : Source.isEnd endLine.raw = true) :
    upToEnd (opening ++ startLine :: (middle ++ endLine :: rest)) =
      opening ++ startLine :: (middle ++ [endLine]) := by
  rw [upToEnd_append fun line h => (hopening line h).2, upToEnd,
    if_neg (by rw [isEnd_of_isStart hstart]; simp),
    upToEnd_append fun line h => (hmiddle line h).2, upToEnd, if_pos hend]

/-- The second pass writes the program of the outline. -/
theorem generated_program (o : Outline lines) (file : Text) :
    (generated lines (upToEnd (numberLines file lines))).program = o.program := by
  -- The numbered lines are cut where the raw ones are.
  obtain ⟨opening, tail, hsource, hopening, htail⟩ :=
    List.map_eq_append_iff.mp ((numberLines_raw file lines).trans o.cut)
  obtain ⟨startLine, tail, rfl, hstart, htail⟩ := List.map_eq_cons_iff.mp htail
  obtain ⟨middle, tail, rfl, hmiddle, htail⟩ := List.map_eq_append_iff.mp htail
  obtain ⟨endLine, rest, rfl, hend, -⟩ := List.map_eq_cons_iff.mp htail
  have hst : statement? startLine.raw = some o.start := by rw [hstart, o.isStart.1]
  have hplain : ∀ line ∈ opening ++ middle, IsPlain line.raw := by
    intro line hm
    apply o.plain
    rw [← hopening, ← hmiddle, ← List.map_append]
    exact List.mem_map_of_mem hm
  have hplain₁ : ∀ line ∈ opening, IsPlain line.raw :=
    fun line hm => hplain line (List.mem_append_left _ hm)
  have hplain₂ : ∀ line ∈ middle, IsPlain line.raw :=
    fun line hm => hplain line (List.mem_append_right _ hm)
  have hs : Source.isStart startLine.raw = true := holds_iff.mpr ⟨_, hst, o.isStart.2⟩
  have he : Source.isEnd endLine.raw = true := by rw [hend]; exact o.isEnd
  rw [hsource, upToEnd_cut hplain₁ hs hplain₂ he]
  unfold generated
  rw [Generation.through_cut hplain₁ hst o.isStart.2 hplain₂ he, hopening, hmiddle]
  unfold program
  rw [codes_eq, List.map_append]
  rfl

end Outline

end Source

/-! ## Assembly -/

theorem program_of_assemble {options : Options} {file : Text} {lines : List Text}
    {done : Assembly} (h : (assemble options file lines).result = .ok done) (o : Outline lines) :
    done.program = o.program := by
  obtain ⟨-, -, hprogram, -⟩ := assemble_ok h
  rw [hprogram, o.generated_program file]

theorem header_of_assemble {options : Options} {file : Text} {lines : List Text}
    {done : Assembly} (h : (assemble options file lines).result = .ok done) (o : Outline lines) :
    done.program.header = some { name := o.name, load := o.load, length := o.length } := by
  rw [program_of_assemble h o]
  rfl

/-- Two passes write what the source means. If they succeed there is an outline, the object text is
    that of every outline, and the address of each line in it is the counter with which the first
    pass reaches that line. -/
theorem render_eq_objectText {options : Options} {file : Text} {lines : List Text}
    {done : Assembly} (h : (assemble options file lines).result = .ok done) :
    Nonempty (Outline lines) ∧
    (∀ o : Outline lines, done.program.render = o.objectText) ∧
    ∀ i, i ≤ lines.length → ∃ s, layOut options (numberLines file (lines.take i)) = .ok s ∧
      s.layout.final = addressAt lines i := by
  obtain ⟨⟨s, hs⟩, hassembled, -⟩ := assemble_ok h
  refine ⟨Outline.exists_of_assembled hassembled, ?_, fun i _ => layOut_take hs i⟩
  intro o
  rw [program_of_assemble h o, o.render_program]

/-- A line before START, a name that is defined behind END, and a label defined twice. -/
def Source.sample : List Text := [
  "      LDA   LATE",
  "COPY  START 1000",
  "FIRST LDA   FIVE",
  "      BYTE  C'EOF'",
  "FIVE  WORD  -5",
  "FIRST RSUB",
  "      END   FIRST",
  "LATE  RESB  2"]

theorem render_eq_objectText_sample : ∃ done, (assemble {} "copy.asm" sample).result = .ok done ∧
    done.program.render =
      ("HCOPY  00100000000E\nT00100C\nT001006\nT454F46\nTFFFFFB\nT4C0000\n" : Text) ++
      ("M00000004+LATE\nM00100004+FIVE\nE001000\n" : Text) ∧
    Nonempty (Outline sample) ∧
    (∀ o : Outline sample, done.program.render = o.objectText) ∧
    ∀ i, i ≤ sample.length → ∃ s,
      layOut {} (numberLines "copy.asm" (sample.take i)) = .ok s ∧
      s.layout.final = addressAt sample i := by
  have hrun : ∃ done, (assemble {} "copy.asm" sample).result = .ok done ∧
      done.program.render =
        ("HCOPY  00100000000E\nT00100C\nT001006\nT454F46\nTFFFFFB\nT4C0000\n" : Text) ++
        ("M00000004+LATE\nM00100004+FIVE\nE001000\n" : Text) := ⟨_, rfl, by decide +kernel⟩
  obtain ⟨done, hdone, htext⟩ := hrun
  exact ⟨done, hdone, htext, render_eq_objectText hdone⟩

end TwoPass
