import TwoPass.Proofs.Fields
import TwoPass.Proofs.Remarks

/-
  Reading is total. A line that is classified first is a remark, or a label that stands alone, or
  holds a statement (`read_cases`); that it has no field to read does not happen. The parts of a
  statement are the first fields of its line, in order (`Parts`), and a field is kept as the name of
  the operation whether or not it is a `Keyword`. `read_total` says so for every line.
-/

namespace TwoPass

/-! ## Names of operations -/

namespace Operation

theorem name_directive {t : Text} {d : Directive} (h : Directive.ofName? t = some d) :
    d.name = t := by
  unfold Directive.ofName? at h
  simpa using List.find?_some h

theorem name_mnemonic {t : Text} {m : Mnemonic} (h : Mnemonic.ofName? t = some m) :
    m.name = t := by
  unfold Mnemonic.ofName? at h
  simpa using List.find?_some h

/-- An operation has the name it was found by, if it is an unknown one too. -/
theorem name_ofName (t : Text) : (ofName t).name = t := by
  unfold ofName
  split
  · rename_i d hd
    exact name_directive hd
  · split
    · rename_i m hm
      exact name_mnemonic hm
    · rfl

end Operation

namespace Source

/-- The name of a directive or of an instruction. -/
def Keyword (t : Text) : Prop := (∃ d : Directive, d.name = t) ∨ ∃ m : Mnemonic, m.name = t

theorem isKeyword_iff {t : Text} : Statement.isKeyword t = true ↔ Keyword t := by
  unfold Statement.isKeyword Operation.ofName
  constructor
  · intro h
    split at h
    · rename_i d hd
      exact .inl ⟨d, Operation.name_directive hd⟩
    · split at h
      · rename_i m hm
        exact .inr ⟨m, Operation.name_mnemonic hm⟩
      · cases h
  · rintro (⟨d, rfl⟩ | ⟨m, rfl⟩)
    · cases d <;> decide
    · cases m <;> decide

theorem isKeyword_eq_false_iff {t : Text} : Statement.isKeyword t = false ↔ ¬ Keyword t := by
  rw [← isKeyword_iff, Bool.not_eq_true]

/-! ## Kinds of lines -/

/-- The first character of a line is neither a space nor a tab. -/
def InColumnOne (raw : Text) : Prop := raw.head? ≠ some ' ' ∧ raw.head? ≠ some '\t'

theorem kind_eq_labelled_iff {raw : Text} :
    LineKind.of raw = .labelled ↔ ¬ IsRemark raw ∧ InColumnOne raw := by
  rw [← kind_eq_remark_iff]
  unfold InColumnOne
  cases raw with
  | nil => simp [LineKind.of]
  | cons c cs =>
    rw [LineKind.of, List.head?_cons]
    split_ifs with hremark hindent
    · exact iff_of_false (by decide) fun h => h.1 rfl
    · refine iff_of_false (by decide) fun h => ?_
      rcases hindent with rfl | rfl
      · exact h.2.1 rfl
      · exact h.2.2 rfl
    · refine iff_of_true rfl ⟨by decide, ?_⟩
      rwa [not_or, ← Option.some_inj, ← Option.some_inj (b := '\t')] at hindent

end Source

open Source

/-! ## Reading -/

/-- A line in column one that holds only a field that is no keyword. -/
def Source.LabelAlone (raw : Text) : Prop :=
  InColumnOne raw ∧ ∃ first, fields raw = [first] ∧ ¬ Keyword first

/-- A line whose first field is a label: it stands in column one, and either it is no keyword or a
    keyword follows. -/
def Source.BeginsWithLabel (raw : Text) : Prop :=
  InColumnOne raw ∧ ∃ first rest, fields raw = first :: rest ∧
    (¬ Keyword first ∨ ∃ second, rest.head? = some second ∧ Keyword second)

/-- What a statement is to the line it was read from. -/
structure Source.Parts (raw : Text) (st : Statement) : Prop where
  named : st.operation.name ≠ []
  labelled : st.label.isSome = true ↔ BeginsWithLabel raw
  /-- Label, operation and operand are the first fields; an operand is missing only where the
      fields end. -/
  inOrder : st.label.toList ++ st.operation.name :: st.operand.toList =
    (fields raw).take (if st.label.isSome then 3 else 2)

namespace Statement

theorem hasLabel_iff {first : Text} {rest : List Text} : hasLabel first rest = true ↔
    ¬ Keyword first ∨ ∃ second, rest.head? = some second ∧ Keyword second := by
  unfold hasLabel
  rw [Bool.or_eq_true, Bool.not_eq_true', isKeyword_eq_false_iff, Option.any_eq_true]
  simp only [isKeyword_iff]

variable {raw first name : Text} {rest operands : List Text} (location : Option Location)

/-- The statement of a line that begins with a label. -/
theorem read_labelled (hk : LineKind.of raw = .labelled)
    (hf : fields raw = first :: name :: operands) (hl : hasLabel first (name :: operands) = true) :
    read (LineKind.of raw) raw location = .ok (some
      { label := some first, operation := Operation.ofName name, operand := operands.head?,
        location, text := Text.dropLineEnd raw }) := by
  rw [hk, read, if_neg (by decide), fields_dropLineEnd, hf]
  exact if_pos ⟨rfl, hl⟩

/-- The statement of a line without a label. -/
theorem read_unlabelled (hk : LineKind.of raw ≠ .remark) (hf : fields raw = first :: rest)
    (hl : ¬ (LineKind.of raw = .labelled ∧ hasLabel first rest = true)) :
    read (LineKind.of raw) raw location = .ok (some
      { label := none, operation := Operation.ofName first, operand := rest.head?,
        location, text := Text.dropLineEnd raw }) := by
  rw [read, if_neg hk, fields_dropLineEnd, hf]
  exact if_neg hl

/-- The fault of a label that stands alone. -/
def aloneFault (raw first : Text) (location : Option Location) : Fault :=
  { cause := .missing ("directive after label '" ++ first ++ "'"), location,
    excerpt := some (Text.dropLineEnd raw) }

theorem read_alone (hk : LineKind.of raw = .labelled) (hf : fields raw = [first])
    (hl : ¬ Keyword first) :
    read (LineKind.of raw) raw location = .error (aloneFault raw first location) := by
  rw [hk, read, if_neg (by decide), fields_dropLineEnd, hf]
  exact if_pos ⟨rfl, hasLabel_iff.mpr (.inl hl)⟩

end Statement

namespace Source

theorem fields_ne_nil {raw : Text} (h : ¬ IsRemark raw) : fields raw ≠ [] := by
  rw [← fields_dropLineEnd]
  exact fields_ne_nil_of_kind (mt kind_eq_remark_iff.mp h)

/-- Whether a line begins with a label, by its kind and its first two fields. -/
theorem beginsWithLabel_iff {raw first : Text} {rest : List Text} (hr : ¬ IsRemark raw)
    (hf : fields raw = first :: rest) : BeginsWithLabel raw ↔
      LineKind.of raw = .labelled ∧ Statement.hasLabel first rest = true := by
  rw [kind_eq_labelled_iff, and_iff_right hr, Statement.hasLabel_iff, BeginsWithLabel]
  refine and_congr_right fun _ => ⟨?_, fun h => ⟨first, rest, hf, h⟩⟩
  rintro ⟨first', rest', hf', h⟩
  obtain ⟨rfl, rfl⟩ := List.cons.inj (hf.symm.trans hf')
  exact h

theorem name_ofName_ne_nil {raw f : Text} (h : f ∈ fields raw) :
    (Operation.ofName f).name ≠ [] := by
  rw [Operation.name_ofName]
  exact ne_nil_of_mem_fields h

/-- What reading a line comes to. -/
theorem read_cases (raw : Text) (location : Option Location) :
    (Statement.read (LineKind.of raw) raw location = .ok none ∧ IsRemark raw) ∨
    (¬ IsRemark raw ∧ InColumnOne raw ∧ ∃ first, fields raw = [first] ∧ ¬ Keyword first ∧
      Statement.read (LineKind.of raw) raw location =
        .error (Statement.aloneFault raw first location)) ∨
    (¬ IsRemark raw ∧ ¬ LabelAlone raw ∧ ∃ st,
      Statement.read (LineKind.of raw) raw location = .ok (some st) ∧ Parts raw st ∧
        st.location = location ∧ st.text = Text.dropLineEnd raw) := by
  by_cases hremark : IsRemark raw
  · refine .inl ⟨?_, hremark⟩
    rw [kind_eq_remark_iff.mpr hremark]
    rfl
  obtain ⟨first, rest, hf⟩ := List.exists_cons_of_ne_nil (fields_ne_nil hremark)
  have hbegins := beginsWithLabel_iff hremark hf
  have hnames : ∀ f ∈ fields raw, (Operation.ofName f).name ≠ [] := fun _ => name_ofName_ne_nil
  by_cases hlabel : LineKind.of raw = .labelled ∧ Statement.hasLabel first rest = true
  · cases rest with
    | nil =>
      have hcolumn : InColumnOne raw := (kind_eq_labelled_iff.mp hlabel.1).2
      have hfirst : ¬ Keyword first := (Statement.hasLabel_iff.mp hlabel.2).resolve_right nofun
      refine .inr (.inl ⟨hremark, hcolumn, first, hf, hfirst, ?_⟩)
      exact Statement.read_alone location hlabel.1 hf hfirst
    | cons name operands =>
      have hread := Statement.read_labelled location hlabel.1 hf hlabel.2
      refine .inr (.inr ⟨hremark, ?_, _, hread, ⟨?_, ?_, ?_⟩, rfl, rfl⟩)
      · rintro ⟨-, alone, halone, -⟩
        cases hf.symm.trans halone
      · exact hnames name (by rw [hf]; simp)
      · exact iff_of_true rfl (hbegins.mpr hlabel)
      · rw [hf, Operation.name_ofName]
        cases operands <;> rfl
  · have hkind : LineKind.of raw ≠ .remark := mt kind_eq_remark_iff.mp hremark
    have hread := Statement.read_unlabelled location hkind hf hlabel
    refine .inr (.inr ⟨hremark, ?_, _, hread, ⟨?_, ?_, ?_⟩, rfl, rfl⟩)
    · rintro ⟨hcolumn, alone, halone, hkey⟩
      exact hlabel (hbegins.mp ⟨hcolumn, alone, [], halone, .inl hkey⟩)
    · exact hnames first (by rw [hf]; simp)
    · exact iff_of_false nofun (mt hbegins.mp hlabel)
    · rw [hf, Operation.name_ofName]
      cases rest <;> rfl

/-- Reading is total on classified lines. A line holds nothing exactly if it begins with `#` or has
    only white space. It is refused exactly if it is none of these, stands in column one and has
    one field, which is no keyword; the fault says so, and there is no other. Any other line holds a
    statement, whose operation has a name, whose label is there exactly if the line begins with
    one, and whose parts are the fields of the line from the first on. -/
theorem read_total (raw : Text) (location : Option Location) :
    (Statement.read (LineKind.of raw) raw location = .ok none ↔ IsRemark raw) ∧
    (∀ fault, Statement.read (LineKind.of raw) raw location = .error fault ↔
      ¬ IsRemark raw ∧ InColumnOne raw ∧ ∃ first, fields raw = [first] ∧ ¬ Keyword first ∧
        fault = Statement.aloneFault raw first location) ∧
    (¬ IsRemark raw → ¬ LabelAlone raw → ∃ st,
      Statement.read (LineKind.of raw) raw location = .ok (some st) ∧ Parts raw st ∧
        st.location = location ∧ st.text = Text.dropLineEnd raw) := by
  rcases read_cases raw location with
    ⟨hread, hremark⟩ | ⟨hremark, hcolumn, first, hf, hkey, hread⟩ |
      ⟨hremark, halone, st, hread, hparts⟩
  · rw [hread]
    refine ⟨iff_of_true rfl hremark, fun fault => ?_, fun h => absurd hremark h⟩
    exact iff_of_false nofun fun h => h.1 hremark
  · rw [hread]
    refine ⟨iff_of_false nofun hremark, fun fault => ?_, fun _ h => ?_⟩
    · rw [Except.error.injEq]
      constructor
      · rintro rfl
        exact ⟨hremark, hcolumn, first, hf, hkey, rfl⟩
      · rintro ⟨-, -, first', hf', -, rfl⟩
        rw [(List.cons.inj (hf.symm.trans hf')).1]
    · exact absurd ⟨hcolumn, first, hf, hkey⟩ h
  · rw [hread]
    refine ⟨iff_of_false nofun hremark, fun fault => ?_, fun _ _ => ⟨st, rfl, hparts⟩⟩
    refine iff_of_false nofun ?_
    rintro ⟨-, hcolumn, first, hf, hkey, -⟩
    exact halone ⟨hcolumn, first, hf, hkey⟩

/-- A keyword for a label, a wide space, a literal for an operand, and text right behind it. -/
def keywords : Text := "J\u2003LDA C'A B'X\r\n"

theorem read_total_keywords : ¬ IsRemark keywords ∧ ¬ LabelAlone keywords ∧
    fields keywords = ["J".toList, "LDA".toList, "C'A B'".toList, "X".toList] ∧ ∃ st,
      Statement.read (LineKind.of keywords) keywords none = .ok (some st) ∧ Parts keywords st ∧
        st.location = none ∧ st.text = Text.dropLineEnd keywords := by
  have hfields : fields keywords =
      ["J".toList, "LDA".toList, "C'A B'".toList, "X".toList] := by decide
  have hremark : ¬ IsRemark keywords := mt kind_eq_remark_iff.mpr (by decide)
  have halone : ¬ LabelAlone keywords := by
    rintro ⟨-, first, hf, -⟩
    rw [hfields] at hf
    cases hf
  exact ⟨hremark, halone, hfields, (read_total keywords none).2.2 hremark halone⟩

end Source

end TwoPass
