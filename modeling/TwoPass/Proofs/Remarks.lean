import TwoPass.Proofs.Warnings

/-
  Remarks carry no meaning. What a source comes to is read off its `telling` lines, those that hold
  a statement: the labels and their addresses, the codes, and the warnings. Remarks put between the
  lines of a source leave the telling lines as they are (`Remarked.telling_eq`). Only the limit is
  checked at remarks too; but a remark that some line follows is at the address of that line, and
  so it fits if the line does (`Remarked.fits`). So remarks may stand anywhere before END
  (`assemble_remarked`).
-/

namespace TwoPass

open Source

namespace Source

/-! ## Remarks -/

/-- Lines that begin with `#` or have only white space. -/
def IsRemark (raw : Text) : Prop := raw.head? = some '#' ∨ ∀ c ∈ raw, Text.isBlank c = true

theorem kind_eq_remark_iff {raw : Text} : LineKind.of raw = .remark ↔ IsRemark raw := by
  unfold IsRemark
  cases raw with
  | nil => exact iff_of_true rfl (.inr (List.forall_mem_nil _))
  | cons c cs =>
    rw [List.head?_cons, Option.some.injEq, ← List.all_eq_true, LineKind.of]
    split_ifs with hremark hindent
    · exact iff_of_true rfl hremark
    · exact iff_of_false (by decide) hremark
    · exact iff_of_false (by decide) hremark

/-- A line that can be read holds a statement, unless it is a remark. -/
theorem statement?_eq_none_iff {raw : Text} (h : Readable raw) :
    statement? raw = none ↔ IsRemark raw := by
  rw [← kind_eq_remark_iff]
  refine ⟨fun hnone => ?_, statement?_remark⟩
  by_contra hk
  obtain ⟨st, hst, -⟩ := exists_statement h hk
  cases hnone.symm.trans hst

theorem IsRemark.statement? {raw : Text} (h : IsRemark raw) : statement? raw = none :=
  statement?_remark (kind_eq_remark_iff.mpr h)

theorem IsRemark.layable {raw : Text} (h : IsRemark raw) : Layable raw := by
  constructor
  · intro hlabelled
    rw [kind_eq_remark_iff.mpr h] at hlabelled
    cases hlabelled
  · intro st hst
    cases h.statement?.symm.trans hst

/-- `Remarked lines lines'` says that `lines'` are `lines` with remarks put between them. -/
inductive Remarked : List Text → List Text → Prop
  | nil : Remarked [] []
  | keep {lines lines' : List Text} (raw : Text) (h : Remarked lines lines') :
      Remarked (raw :: lines) (raw :: lines')
  | insert {lines lines' : List Text} {raw : Text} (hraw : IsRemark raw)
      (h : Remarked lines lines') : Remarked lines (raw :: lines')

/-! ## Telling lines -/

/-- The lines that hold a statement. -/
def telling (lines : List Text) : List Text := lines.filter fun raw => (statement? raw).isSome

theorem telling_append (before after : List Text) :
    telling (before ++ after) = telling before ++ telling after := List.filter_append ..

theorem telling_cons_of_none {raw : Text} (h : statement? raw = none) (lines : List Text) :
    telling (raw :: lines) = telling lines :=
  List.filter_cons_of_neg (by rw [h]; decide)

theorem telling_cons_of_some {raw : Text} {st : Statement} (h : statement? raw = some st)
    (lines : List Text) : telling (raw :: lines) = raw :: telling lines :=
  List.filter_cons_of_pos (by rw [h]; rfl)

theorem Remarked.telling_eq {lines lines' : List Text} (h : Remarked lines lines') :
    telling lines' = telling lines := by
  induction h with
  | nil => rfl
  | keep raw _ ih =>
    cases hst : statement? raw with
    | none => rw [telling_cons_of_none hst, telling_cons_of_none hst, ih]
    | some st => rw [telling_cons_of_some hst, telling_cons_of_some hst, ih]
  | insert hraw _ ih => rw [telling_cons_of_none hraw.statement?, ih]

variable {lines lines' : List Text}

/-- What is taken from statements alone is taken from the telling lines. -/
theorem filterMap_telling {α : Type} {f : Text → Option α}
    (hf : ∀ raw, statement? raw = none → f raw = none) (lines : List Text) :
    (telling lines).filterMap f = lines.filterMap f := by
  induction lines with
  | nil => rfl
  | cons raw rest ih =>
    cases hst : statement? raw with
    | none => rw [telling_cons_of_none hst, ih, List.filterMap_cons_none (hf raw hst)]
    | some st => rw [telling_cons_of_some hst, List.filterMap_cons, List.filterMap_cons, ih]

theorem labels_telling (lines : List Text) : labels (telling lines) = labels lines := by
  apply filterMap_telling
  intro raw hraw
  unfold label?
  rw [hraw]
  rfl

theorem codes_telling (address : Text → Nat) (lines : List Text) :
    codes address (telling lines) = codes address lines := by
  unfold codes
  rw [filterMap_telling fun _ => id]

theorem relocations_telling (lines : List Text) :
    relocations (telling lines) = relocations lines := by
  unfold relocations
  rw [filterMap_telling fun _ => id]

theorem countFrom_telling (c : Nat) (lines : List Text) :
    countFrom c (telling lines) = countFrom c lines := by
  induction lines generalizing c with
  | nil => rfl
  | cons raw rest ih =>
    cases hst : statement? raw with
    | none => rw [telling_cons_of_none hst, countFrom_cons, count_remark hst, ih]
    | some st => rw [telling_cons_of_some hst, countFrom_cons, countFrom_cons, ih]

/-- The address of a label, from the counter before lines; zero if they do not define it. -/
def addressFrom (label : Text) : (counter : Nat) → List Text → Nat
  | _, [] => 0
  | c, raw :: rest => if defines label raw then c else addressFrom label (count c raw) rest

theorem addressFrom_eq (label : Text) (c : Nat) (lines : List Text) : addressFrom label c lines =
    ((lines.findIdx? (defines label)).map fun i => countFrom c (lines.take i)).getD 0 := by
  induction lines generalizing c with
  | nil => rfl
  | cons raw rest ih =>
    rw [List.findIdx?_cons, addressFrom, ih]
    by_cases hd : defines label raw = true
    · rw [if_pos hd, if_pos hd]
      rfl
    · rw [if_neg hd, if_neg hd, Option.map_map]
      rfl

theorem labelAddress_eq_addressFrom (lines : List Text) (label : Text) :
    labelAddress lines label = addressFrom label 0 lines := by
  rw [addressFrom_eq]
  unfold labelAddress
  cases lines.findIdx? (defines label) <;> rfl

theorem labelAddress_telling (lines : List Text) :
    labelAddress (telling lines) = labelAddress lines := by
  have hfrom : ∀ label c, addressFrom label c (telling lines) = addressFrom label c lines := by
    intro label
    induction lines with
    | nil => exact fun _ => rfl
    | cons raw rest ih =>
      intro c
      cases hst : statement? raw with
      | none =>
        have hd : defines label raw = false := by
          unfold defines
          rw [hst]
          rfl
        rw [telling_cons_of_none hst, addressFrom, hd, count_remark hst, ih]
        rfl
      | some st => rw [telling_cons_of_some hst, addressFrom, addressFrom, ih]
  funext label
  rw [labelAddress_eq_addressFrom, labelAddress_eq_addressFrom, hfrom]

theorem beforeEnd_telling (lines : List Text) :
    beforeEnd (telling lines) = telling (beforeEnd lines) := by
  induction lines with
  | nil => rfl
  | cons raw rest ih =>
    cases hst : statement? raw with
    | none =>
      rw [telling_cons_of_none hst, beforeEnd_cons (holds_remark hst .finish),
        telling_cons_of_none hst, ih]
    | some st =>
      rw [telling_cons_of_some hst]
      cases hend : isEnd raw with
      | true =>
        rw [beforeEnd_end hend, beforeEnd_end hend]
        rfl
      | false => rw [beforeEnd_cons hend, beforeEnd_cons hend, telling_cons_of_some hst, ih]

theorem assembled_telling {started : Bool} :
    Assembled started (telling lines) ↔ Assembled started lines := by
  induction lines generalizing started with
  | nil => rfl
  | cons raw rest ih =>
    cases hst : statement? raw with
    | none =>
      have hallowed : Allowed started raw := by
        intro st h
        cases hst.symm.trans h
      have hstart : isStart raw = false := holds_remark hst .start
      have hend : isEnd raw = false := holds_remark hst .finish
      rw [telling_cons_of_none hst, ih, Assembled, hstart, hend, Bool.or_false]
      exact ⟨fun h => ⟨hallowed, fun _ => h⟩, fun h => h.2 rfl⟩
    | some st => rw [telling_cons_of_some hst, Assembled, Assembled, ih]

/-! ## Programs -/

/-- The outline of the telling lines. -/
def Outline.telling (o : Outline lines) : Outline (telling lines) :=
  { o with
    opening := Source.telling o.opening
    middle := Source.telling o.middle
    rest := Source.telling o.rest
    cut := by
      obtain ⟨st, hst, -⟩ := holds_iff.mp o.isEnd
      refine (congrArg Source.telling o.cut).trans ?_
      rw [telling_append, telling_cons_of_some o.isStart.1, telling_append,
        telling_cons_of_some hst]
    plain := by
      intro raw hraw
      rw [← telling_append] at hraw
      exact o.plain raw (List.mem_filter.mp hraw).1 }

theorem Outline.program_telling (o : Outline lines) : o.telling.program = o.program := by
  have hlength : o.telling.length = o.length := by
    show (countFrom 0 (Source.telling lines) : Int) - o.load = countFrom 0 lines - o.load
    rw [countFrom_telling]
  have hcodes : o.telling.codes = o.codes := by
    rw [o.telling.codes_eq, o.codes_eq, labelAddress_telling]
    exact congrArg₂ (· ++ ·) (codes_telling _ o.opening) (codes_telling _ o.middle)
  have hopening : relocations o.telling.opening = relocations o.opening := relocations_telling _
  have hmiddle : relocations o.telling.middle = relocations o.middle := relocations_telling _
  unfold program
  rw [hlength, hcodes, hopening, hmiddle]
  rfl

/-- Sources with the same telling lines mean the same program. -/
theorem Outline.program_eq (o : Outline lines) (o' : Outline lines')
    (h : Source.telling lines = Source.telling lines') : o.program = o'.program := by
  rw [← o.program_telling, ← o'.program_telling, ← o.telling.generated_program [],
    ← o'.telling.generated_program [], h]

/-! ## Acceptance -/

/-- A remark that some line follows is below the limit if the line is. -/
theorem Remarked.fits {limit : Int} {c : Nat} {line : Text} {rest : List Text}
    (h : Remarked lines lines') (hfits : Fits limit c (lines ++ line :: rest)) :
    Fits limit c (lines' ++ line :: rest) := by
  induction h generalizing c with
  | nil => exact hfits
  | keep raw _ ih => exact ⟨hfits.1, ih hfits.2⟩
  | @insert lines lines' raw hraw _ ih =>
    have hnext := ih hfits
    have hbelow : (c : Int) < limit := by
      cases lines' with
      | nil => exact hnext.1.1
      | cons next more => exact hnext.1.1
    refine ⟨⟨hbelow, hraw.layable⟩, ?_⟩
    rw [count_remark hraw.statement?]
    exact hnext

section SameTelling

variable (h : telling lines' = telling lines)
include h

theorem labels_of_telling : labels lines' = labels lines := by
  rw [← labels_telling, h, labels_telling]

theorem labelAddress_of_telling : labelAddress lines' = labelAddress lines := by
  rw [← labelAddress_telling, h, labelAddress_telling]

theorem relocations_of_telling :
    relocations (beforeEnd lines') = relocations (beforeEnd lines) := by
  rw [← relocations_telling, ← beforeEnd_telling, h, beforeEnd_telling, relocations_telling]

theorem assembled_of_telling {started : Bool} :
    Assembled started lines' ↔ Assembled started lines := by
  rw [← assembled_telling, h, assembled_telling]

end SameTelling

/-- Only the limit is asked of all lines. -/
theorem Admissible.of_telling {options : Options} (hlines : Admissible options lines)
    (h : telling lines' = telling lines) (hfits : Fits options.maxAddress 0 lines') :
    Admissible options lines' := by
  refine ⟨hfits, (assembled_of_telling h).mpr hlines.assembled, ?_, ?_⟩
  · rw [labels_of_telling h]
    exact hlines.distinct
  · rw [labels_of_telling h, relocations_of_telling h]
    exact hlines.resolved

end Source

/-! ## Assembly -/

theorem addresses_of_assemble {options : Options} {file : Text} {lines : List Text}
    {done : Assembly} (h : (assemble options file lines).result = .ok done) :
    done.layout.symbols.addresses =
      (labels lines).eraseDups.map fun name => (name, (labelAddress lines name : Int)) := by
  obtain ⟨s, hs, hlayout⟩ := assemble_layout h
  rw [← hlayout, layOut_addresses hs]

/-- Sources with the same telling lines come to the same, where both are assembled. -/
theorem assemble_of_telling {options : Options} {file : Text} {lines lines' : List Text}
    {done done' : Assembly} (h : (assemble options file lines).result = .ok done)
    (h' : (assemble options file lines').result = .ok done')
    (htelling : telling lines' = telling lines) :
    done'.program = done.program ∧
      done'.layout.symbols.addresses = done.layout.symbols.addresses ∧
      warnings (assemble options file lines').notices =
        warnings (assemble options file lines).notices := by
  obtain ⟨-, hassembled, -⟩ := assemble_ok h
  obtain ⟨o⟩ := Outline.exists_of_assembled hassembled
  obtain ⟨o'⟩ := Outline.exists_of_assembled ((assembled_of_telling htelling).mpr hassembled)
  refine ⟨?_, ?_, ?_⟩
  · rw [program_of_assemble h o, program_of_assemble h' o', o'.program_eq o htelling]
  · rw [addresses_of_assemble h, addresses_of_assemble h', labels_of_telling htelling,
      labelAddress_of_telling htelling]
  · have hwarnings := warnings_of_assemble h
    have hwarnings' := warnings_of_assemble h'
    rw [labels_of_telling htelling, relocations_of_telling htelling] at hwarnings'
    omega

/-- Comments and blank lines carry no meaning. If a source is assembled, it is assembled with any
    remarks before one of its lines too, which may be END: into the same object program, with the
    same symbols at the same addresses, and with as many warnings. -/
theorem assemble_remarked {options : Options} {file : Text} {before padded rest : List Text}
    {line : Text} {done : Assembly}
    (h : (assemble options file (before ++ line :: rest)).result = .ok done)
    (hpadded : Remarked before padded) :
    ∃ done', (assemble options file (padded ++ line :: rest)).result = .ok done' ∧
      done'.program = done.program ∧
      done'.layout.symbols.addresses = done.layout.symbols.addresses ∧
      warnings (assemble options file (padded ++ line :: rest)).notices =
        warnings (assemble options file (before ++ line :: rest)).notices := by
  have htelling : telling (padded ++ line :: rest) = telling (before ++ line :: rest) := by
    rw [telling_append, hpadded.telling_eq, ← telling_append]
  have hadmissible := assemble_isOk_iff_admissible.mp ⟨done, h⟩
  obtain ⟨done', h'⟩ := assemble_isOk_iff_admissible.mpr
    (hadmissible.of_telling htelling (hpadded.fits hadmissible.fits))
  exact ⟨done', h', assemble_of_telling h h' htelling⟩

/-- A source with a label that is defined twice, and an operand that no line defines. -/
def Source.unremarked : List Text :=
  ["      LDA   LATE", "COPY  START 1000", "FIRST LDA   NONE", "FIRST BYTE  C'#'"]

/-- The same with remarks of all kinds, at the first line and at the last. -/
def Source.remarked : List Text :=
  ["# COPY\n", "      LDA   LATE", "", "COPY  START 1000", "\t \r\n", "FIRST LDA   NONE", "#",
    "FIRST BYTE  C'#'", "\u3000\x0c"]

/-- The limit is met right behind the last line that is checked against it. -/
theorem assemble_remarked_close :
    let options : Options := { maxAddress := 0x1005 }
    let line : Text := "      END   FIRST"
    let rest : List Text := ["LATE  RESB  2"]
    ∃ done, (assemble options "copy.asm" (unremarked ++ line :: rest)).result = .ok done ∧
      Remarked unremarked remarked ∧
      warnings (assemble options "copy.asm" (unremarked ++ line :: rest)).notices = 2 ∧
      ∃ done', (assemble options "copy.asm" (remarked ++ line :: rest)).result = .ok done' ∧
        done'.program = done.program ∧
        done'.layout.symbols.addresses = done.layout.symbols.addresses ∧
        warnings (assemble options "copy.asm" (remarked ++ line :: rest)).notices =
          warnings (assemble options "copy.asm" (unremarked ++ line :: rest)).notices := by
  intro options line rest
  have hrun : ∃ done,
      (assemble options "copy.asm" (unremarked ++ line :: rest)).result = .ok done := ⟨_, rfl⟩
  have hremarked : Remarked unremarked remarked :=
    .insert (.inl rfl) (.keep _ (.insert (.inr nofun) (.keep _
      (.insert (.inr (List.all_eq_true.mp (by decide))) (.keep _ (.insert (.inl rfl) (.keep _
        (.insert (.inr (List.all_eq_true.mp (by decide))) .nil))))))))
  obtain ⟨done, hdone⟩ := hrun
  exact ⟨done, hdone, hremarked, by decide +kernel, assemble_remarked hdone hremarked⟩

end TwoPass
