import Mathlib.Data.List.TakeWhile
import TwoPass.Source.Operand

/-
  Reading a line, apart from its place. `Source.statement?` is the statement a raw line holds;
  it exists for every line that is no remark and is `Readable`, that is, unless a label stands
  alone in column one. Both passes read a line through `Statement.read`, and `read_readable` and
  `read_unreadable` say what that gives, so that neither is unfolded again.
-/

namespace TwoPass

theorem ok_bind {ε α β : Type} (a : α) (f : α → Except ε β) : (Except.ok a >>= f) = f a := rfl

theorem bind_eq_ok {ε α β : Type} {x : Except ε α} {f : α → Except ε β} {b : β}
    (h : x >>= f = .ok b) : ∃ a, x = .ok a ∧ f a = .ok b := by
  cases x with
  | error e => cases h
  | ok a => exact ⟨a, rfl, h⟩

theorem map_eq_ok_iff {ε α β : Type} {x : Except ε α} {f : α → β} {b : β} :
    x.map f = .ok b ↔ ∃ a, x = .ok a ∧ b = f a := by
  cases x with
  | error e => simp [Except.map]
  | ok a => simp [Except.map, eq_comm]

/-! ## Fields -/

namespace Source

theorem literal?_ne_nil {t l : Text} (h : literal? t = some l) : l ≠ [] := by
  unfold literal? at h
  split at h
  · split at h
    · cases h; exact List.cons_ne_nil _ _
    · cases h
  · cases h

theorem field_ne_nil {c : Char} (hc : Text.isBlank c = false) (cs : Text) :
    field (c :: cs) ≠ [] := by
  unfold field
  split
  · rename_i l hl
    exact literal?_ne_nil hl
  · rw [List.takeWhile_cons_of_pos (by simp [hc])]
    exact List.cons_ne_nil _ _

theorem ne_nil_of_mem_fieldsFrom {f : Text} (skip : Nat) (t : Text)
    (h : f ∈ fieldsFrom skip t) : f ≠ [] := by
  induction t generalizing skip with
  | nil => cases skip <;> exact absurd h List.not_mem_nil
  | cons c cs ih =>
    cases skip with
    | succ skip => exact ih skip h
    | zero =>
      unfold fieldsFrom at h
      split at h
      · exact ih 0 h
      · rename_i hc
        rcases List.mem_cons.mp h with rfl | h
        · exact field_ne_nil (by simpa using hc) cs
        · exact ih _ h

/-- No field is empty. -/
theorem ne_nil_of_mem_fields {f t : Text} (h : f ∈ fields t) : f ≠ [] :=
  ne_nil_of_mem_fieldsFrom 0 t h

/-- Only a text of white space has no fields. -/
theorem all_isBlank_of_fields_eq_nil {t : Text} (h : fields t = []) :
    t.all Text.isBlank = true := by
  unfold fields at h
  induction t with
  | nil => rfl
  | cons c cs ih =>
    unfold fieldsFrom at h
    split at h
    · rename_i hc
      rw [List.all_cons, hc, ih h]
      rfl
    · cases h

theorem fieldsFrom_of_length_le {skip : Nat} {t : Text} (h : t.length ≤ skip) :
    fieldsFrom skip t = [] := by
  induction t generalizing skip with
  | nil => cases skip <;> rfl
  | cons c cs ih =>
    rw [List.length_cons] at h
    obtain ⟨k, rfl⟩ : ∃ k, skip = k + 1 := ⟨skip - 1, by omega⟩
    exact ih (by omega)

/-- A run of characters that are no white space and start no literal is one field. -/
theorem fields_run {c : Char} {cs : Text} (hb : ∀ d ∈ c :: cs, Text.isBlank d = false)
    (hl : literal? (c :: cs) = none) : fields (c :: cs) = [c :: cs] := by
  have hfield : field (c :: cs) = c :: cs := by
    unfold field
    rw [hl]
    exact List.takeWhile_eq_self_iff.mpr fun d hd => by rw [hb d hd]; rfl
  have hc : ¬ Text.isBlank c = true := by rw [hb c List.mem_cons_self]; exact Bool.false_ne_true
  unfold fields
  rw [fieldsFrom, if_neg hc, hfield, fieldsFrom_of_length_le (by simp)]

end Source

/-! ## Line ends -/

theorem Text.dropEndWhile_append (p : Char → Bool) (t : Text) :
    ∃ s, t = dropEndWhile p t ++ s ∧ s.all p = true := by
  refine ⟨(t.reverse.takeWhile p).reverse, ?_, ?_⟩
  · unfold dropEndWhile
    rw [← List.reverse_append, List.takeWhile_append_dropWhile, List.reverse_reverse]
  · rw [List.all_reverse]
    exact List.all_takeWhile

/-- A line is what it is without its end, and white space. -/
theorem Text.dropLineEnd_append (t : Text) :
    ∃ s, t = dropLineEnd t ++ s ∧ ∀ c ∈ s, isBlank c = true := by
  obtain ⟨s, hs, hp⟩ := dropEndWhile_append (fun c => c == '\r' || c == '\n') t
  refine ⟨s, hs, fun c hc => ?_⟩
  have hend := List.all_eq_true.mp hp c hc
  simp only [Bool.or_eq_true, beq_iff_eq] at hend
  rcases hend with rfl | rfl <;> decide

/-- A line of white space but for its end is a line of white space. -/
theorem Text.all_isBlank_of_dropLineEnd {t : Text}
    (h : (dropLineEnd t).all isBlank = true) : t.all isBlank = true := by
  obtain ⟨s, hs, hblank⟩ := dropLineEnd_append t
  rw [hs, List.all_append, h, List.all_eq_true.mpr hblank]
  rfl

theorem fields_ne_nil_of_kind {raw : Text} (h : LineKind.of raw ≠ .remark) :
    Source.fields (Text.dropLineEnd raw) ≠ [] := by
  intro hf
  have hb := Text.all_isBlank_of_dropLineEnd (Source.all_isBlank_of_fields_eq_nil hf)
  cases raw with
  | nil => exact h rfl
  | cons c cs => exact h (by simp only [LineKind.of, hb, or_true, if_true])

/-! ## Statements apart from their place -/

namespace Source

/-- A label in column one does not stand alone. -/
def Readable (raw : Text) : Prop :=
  LineKind.of raw = .labelled →
    ∀ first, fields (Text.dropLineEnd raw) = [first] → Statement.isKeyword first = true

/-- The statement of a line. A remark has none, and neither has a label that stands alone. -/
def statement? (raw : Text) : Option Statement :=
  match Statement.read (LineKind.of raw) raw none with
  | .ok st => st
  | .error _ => none

end Source

namespace Statement

/-- A statement with the place it was read at. -/
def place (st : Statement) (location : Location) : Statement :=
  { st with location := some location }

/-- The statement that the fields of a line make: behind a label, or from the first field on. -/
def ofFields (labelled : Bool) (text first : Text) (rest : List Text) : Statement :=
  if labelled then
    { label := some first, operation := Operation.ofName (rest.headD []),
      operand := rest.tail.head?, text }
  else
    { label := none, operation := Operation.ofName first, operand := rest.head?, text }

theorem read_fields {kind : LineKind} {raw first : Text} {rest : List Text}
    (hk : kind ≠ .remark) (hf : Source.fields (Text.dropLineEnd raw) = first :: rest)
    (hr : kind = .labelled → rest = [] → isKeyword first = true) :
    ∃ st, (∀ l, read kind raw (some l) = .ok (some (st.place l))) ∧
      read kind raw none = .ok (some st) ∧ ∀ t, st.operand = some t → t ∈ first :: rest := by
  unfold read
  simp only [hk, if_false, hf]
  by_cases hl : kind = .labelled ∧ hasLabel first rest = true
  · cases rest with
    | nil =>
      have := hr hl.1 rfl
      simp [hasLabel, this] at hl
    | cons name operands =>
      refine ⟨ofFields true (Text.dropLineEnd raw) first (name :: operands), ?_, ?_, ?_⟩
      · intro l; simp only [hl, and_self, if_true]; rfl
      · simp only [hl, and_self, if_true]; rfl
      · intro t ht
        exact .tail _ (.tail _ (List.mem_of_mem_head? ht))
  · refine ⟨ofFields false (Text.dropLineEnd raw) first rest, ?_, ?_, ?_⟩
    · intro l; simp only [hl, if_false]; rfl
    · simp only [hl, if_false]; rfl
    · intro t ht
      exact .tail _ (List.mem_of_mem_head? ht)

end Statement

namespace Source

theorem statement?_remark {raw : Text} (h : LineKind.of raw = .remark) : statement? raw = none := by
  unfold statement? Statement.read
  simp [h]

theorem exists_statement {raw : Text} (h : Readable raw) (hk : LineKind.of raw ≠ .remark) :
    ∃ st, statement? raw = some st ∧
      (∀ l, Statement.read (LineKind.of raw) raw (some l) = .ok (some (st.place l))) ∧
      ∀ t, st.operand = some t → t ∈ fields (Text.dropLineEnd raw) := by
  obtain ⟨first, rest, hf⟩ := List.exists_cons_of_ne_nil (fields_ne_nil_of_kind hk)
  obtain ⟨st, hl, hn, hm⟩ :=
    Statement.read_fields hk hf fun hlab hnil => h hlab first (hnil ▸ hf)
  refine ⟨st, ?_, hl, fun t hop => hf ▸ hm t hop⟩
  unfold statement?
  rw [hn]

/-- Where a line is `Readable`, both passes read its statement. -/
theorem read_readable {raw : Text} (h : Readable raw) (l : Location) :
    Statement.read (LineKind.of raw) raw (some l) =
      .ok ((statement? raw).map fun st => st.place l) := by
  by_cases hk : LineKind.of raw = .remark
  · rw [statement?_remark hk]
    simp [Statement.read, hk]
  · obtain ⟨st, hst, hl, -⟩ := exists_statement h hk
    rw [hl l, hst]
    rfl

/-- A label that stands alone is the only reason not to read a line. -/
theorem read_unreadable {raw : Text} (h : ¬ Readable raw) (l : Option Location) :
    ∃ f, Statement.read (LineKind.of raw) raw l = .error f ∧ f.cause.category = .missing := by
  unfold Readable at h
  simp only [Classical.not_imp, Classical.not_forall, Bool.not_eq_true] at h
  obtain ⟨hk, first, hf, hkey⟩ := h
  refine ⟨{ cause := .missing ("directive after label '" ++ first ++ "'"), location := l,
            excerpt := some (Text.dropLineEnd raw) }, ?_, rfl⟩
  unfold Statement.read
  simp [hk, hf, Statement.hasLabel, hkey]

theorem readable_of_statement {raw : Text} {st : Statement} (h : statement? raw = some st) :
    Readable raw ∧ LineKind.of raw ≠ .remark := by
  constructor
  · apply Classical.byContradiction
    intro hr
    obtain ⟨f, he, -⟩ := read_unreadable hr none
    unfold statement? at h
    rw [he] at h
    cases h
  · intro hk
    rw [statement?_remark hk] at h
    cases h

/-- An operand, where there is one, is not empty. -/
theorem operand_ne_nil {raw t : Text} {st : Statement} (h : statement? raw = some st)
    (ht : st.operand = some t) : t ≠ [] := by
  obtain ⟨st', hst, -, hm⟩ :=
    exists_statement (readable_of_statement h).1 (readable_of_statement h).2
  rw [hst] at h
  cases h
  exact ne_nil_of_mem_fields (hm t ht)

/-! ## Kinds of lines -/

/-- Whether a line holds the given directive. -/
def holds (d : Directive) (raw : Text) : Bool :=
  (statement? raw).any fun st => st.operation = .directive d

theorem holds_iff {d : Directive} {raw : Text} :
    holds d raw = true ↔ ∃ st, statement? raw = some st ∧ st.operation = .directive d := by
  simp [holds, Option.any_eq_true]

theorem holds_of_statement {d : Directive} {raw : Text} {st : Statement}
    (h : statement? raw = some st) : holds d raw = decide (st.operation = .directive d) := by
  simp [holds, h]

abbrev isStart (raw : Text) : Bool := holds .start raw

abbrev isEnd (raw : Text) : Bool := holds .finish raw

theorem holds_remark {raw : Text} (h : statement? raw = none) (d : Directive) :
    holds d raw = false := by
  rw [holds, h]
  rfl

theorem isEnd_of_isStart {raw : Text} (h : isStart raw = true) : isEnd raw = false := by
  obtain ⟨st, hst, ho⟩ := holds_iff.mp h
  rw [isEnd, holds_of_statement hst, ho]
  decide

theorem isStart_of_isEnd {raw : Text} (h : isEnd raw = true) : isStart raw = false := by
  rw [← Bool.not_eq_true]
  intro hs
  rw [isEnd_of_isStart hs] at h
  cases h

end Source

end TwoPass
