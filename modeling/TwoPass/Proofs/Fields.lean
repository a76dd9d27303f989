import TwoPass.Proofs.Reading

/-
  How a text falls into fields. `literal?_eq_some_iff` says what a quoted literal at the start of a
  text is. White space before a field is passed over (`fields_blank`); behind it, a field that is
  known leaves the fields of the rest (`fields_append`): this holds of a run up to white space
  (`field_run`) and of a literal, whatever follows it (`field_literal`). White space at the end of a
  text, such as the end of a line, changes nothing (`fields_append_blank`).
-/

namespace TwoPass.Source

theorem isBlank_quote : Text.isBlank quote = false := by decide

/-! ## Literals -/

theorem takeWhile_quoted {body : Text} (hb : quote ∉ body) (rest : Text) :
    (body ++ quote :: rest).takeWhile (· ≠ quote) = body := by
  have hbody : ∀ c ∈ body, decide (c ≠ quote) = true :=
    fun c hc => decide_eq_true fun he => hb (he ▸ hc)
  rw [List.takeWhile_append_of_pos hbody, List.takeWhile_cons_of_neg (by simp), List.append_nil]

/-- A literal is a letter, a quote, a body without a quote, and a quote. -/
theorem literal?_eq_some_iff {t l : Text} : literal? t = some l ↔
    ∃ kind body rest, (kind = 'C' ∨ kind = 'X') ∧ quote ∉ body ∧
      l = kind :: quote :: (body ++ [quote]) ∧ t = l ++ rest := by
  constructor
  · intro h
    unfold literal? at h
    split at h
    · rename_i kind mark text
      split at h
      · rename_i hl
        obtain ⟨hkind, rfl, hmem⟩ := hl
        -- the body ends at the first quote of the text
        obtain ⟨body, rest, rfl, hbody⟩ := List.eq_append_cons_of_mem hmem
        rw [takeWhile_quoted hbody, Option.some.injEq] at h
        exact ⟨kind, body, rest, hkind, hbody, h.symm, by rw [← h]; simp⟩
      · cases h
    · cases h
  · rintro ⟨kind, body, rest, hkind, hbody, rfl, rfl⟩
    have htext : kind :: quote :: (body ++ [quote]) ++ rest =
        kind :: quote :: (body ++ quote :: rest) := by simp
    rw [htext, literal?, if_pos ⟨hkind, rfl, by simp⟩, takeWhile_quoted hbody]
    rfl

/-- White space behind a text neither starts nor ends a literal. -/
theorem literal?_append_blank {gap : Text} (hg : ∀ c ∈ gap, Text.isBlank c = true) (t : Text) :
    literal? (t ++ gap) = literal? t := by
  ext l
  rw [literal?_eq_some_iff, literal?_eq_some_iff]
  constructor
  · rintro ⟨kind, body, rest, hkind, hbody, hl, ht⟩
    refine ⟨kind, body, ?_⟩
    rcases List.append_eq_append_iff.mp ht with ⟨spill, hspill, hgap⟩ | ⟨rest', hrest, -⟩
    · -- the literal would end in the gap, and its last character is no white space
      rcases List.eq_nil_or_concat spill with rfl | ⟨init, c, rfl⟩
      · exact ⟨[], hkind, hbody, hl, by rw [hspill, List.append_nil, List.append_nil]⟩
      · have hends : (t ++ init) ++ [c] = (kind :: quote :: body) ++ [quote] := by
          rw [List.append_assoc, ← List.concat_eq_append, ← hspill, hl]
          rfl
        have hc : c = quote := List.head_eq_of_cons_eq (List.append_inj' hends rfl).2
        have hblank := hg c (by rw [hgap]; simp)
        rw [hc, isBlank_quote] at hblank
        cases hblank
    · exact ⟨rest', hkind, hbody, hl, hrest⟩
  · rintro ⟨kind, body, rest, hkind, hbody, hl, ht⟩
    exact ⟨kind, body, rest ++ gap, hkind, hbody, hl, by rw [ht, List.append_assoc]⟩

/-! ## One field -/

theorem takeWhile_blank {t : Text} (h : ∀ c, t.head? = some c → Text.isBlank c = true) :
    (t.takeWhile fun c => !Text.isBlank c) = [] := by
  cases t with
  | nil => rfl
  | cons c cs => exact List.takeWhile_cons_of_neg (by simp [h c rfl])

theorem literal?_eq_none {c : Char} {cs : Text} (h : cs.head? ≠ some quote) :
    literal? (c :: cs) = none := by
  rw [Option.eq_none_iff_forall_ne_some]
  intro l hl
  obtain ⟨kind, body, rest, -, -, rfl, ht⟩ := literal?_eq_some_iff.mp hl
  rw [(List.cons.inj ht).2] at h
  exact h rfl

/-- A run without a quote, up to white space or the end of the text, is a field. -/
theorem field_run {run rest : Text} (hne : run ≠ [])
    (hrun : ∀ c ∈ run, Text.isBlank c = false ∧ c ≠ quote)
    (hrest : ∀ c, rest.head? = some c → Text.isBlank c = true) : field (run ++ rest) = run := by
  obtain ⟨c, cs, rfl⟩ := List.exists_cons_of_ne_nil hne
  have hsecond : (cs ++ rest).head? ≠ some quote := by
    intro h
    cases cs with
    | nil =>
      have hblank := hrest quote h
      rw [isBlank_quote] at hblank
      cases hblank
    | cons d ds => exact (hrun d (.tail _ List.mem_cons_self)).2 (Option.some.inj h)
  have hpos : ∀ d ∈ c :: cs, (!Text.isBlank d) = true := fun d hd => by rw [(hrun d hd).1]; rfl
  unfold field
  rw [List.cons_append, literal?_eq_none hsecond, ← List.cons_append]
  dsimp only
  rw [List.takeWhile_append_of_pos hpos, takeWhile_blank hrest, List.append_nil]

/-- A literal is a field, whatever follows it. -/
theorem field_literal {kind : Char} {body : Text} (hkind : kind = 'C' ∨ kind = 'X')
    (hbody : quote ∉ body) (rest : Text) :
    field (kind :: quote :: (body ++ [quote]) ++ rest) = kind :: quote :: (body ++ [quote]) := by
  unfold field
  rw [literal?_eq_some_iff.mpr ⟨kind, body, rest, hkind, hbody, rfl, rfl⟩]

theorem field_append_blank {gap : Text} (hg : ∀ c ∈ gap, Text.isBlank c = true) (t : Text) :
    field (t ++ gap) = field t := by
  unfold field
  rw [literal?_append_blank hg]
  cases literal? t with
  | some l => rfl
  | none =>
    have hgap := takeWhile_blank fun c hc => hg c (List.mem_of_mem_head? hc)
    dsimp only
    rw [List.takeWhile_append, hgap, List.append_nil]
    split
    · rename_i hall
      exact ((List.takeWhile_prefix _).eq_of_length hall).symm
    · rfl

/-! ## All fields -/

theorem fieldsFrom_eq_drop (skip : Nat) (t : Text) : fieldsFrom skip t = fields (t.drop skip) := by
  induction t generalizing skip with
  | nil => cases skip <;> rfl
  | cons c cs ih =>
    cases skip with
    | zero => rfl
    | succ skip => exact ih skip

/-- Behind a field come the fields of the rest. -/
theorem fields_append {f rest : Text} (hfield : field (f ++ rest) = f)
    (hfirst : ∃ c, f.head? = some c ∧ Text.isBlank c = false) :
    fields (f ++ rest) = f :: fields rest := by
  obtain ⟨c, hc, hblank⟩ := hfirst
  obtain ⟨cs, rfl⟩ := List.head?_eq_some_iff.mp hc
  rw [List.cons_append] at hfield ⊢
  rw [fields, fieldsFrom, hblank, if_neg Bool.false_ne_true, hfield, fieldsFrom_eq_drop]
  congr 2
  exact List.drop_left' (by simp)

/-- White space before a field is passed over. -/
theorem fields_blank {gap : Text} (hg : ∀ c ∈ gap, Text.isBlank c = true) (t : Text) :
    fields (gap ++ t) = fields t := by
  induction gap with
  | nil => rfl
  | cons c cs ih =>
    rw [List.forall_mem_cons] at hg
    rw [List.cons_append, fields, fieldsFrom, hg.1, if_pos rfl]
    exact ih hg.2

theorem fieldsFrom_append_blank {gap : Text} (hg : ∀ c ∈ gap, Text.isBlank c = true)
    (skip : Nat) (t : Text) : fieldsFrom skip (t ++ gap) = fieldsFrom skip t := by
  induction t generalizing skip with
  | nil =>
    have hdrop : ∀ c ∈ gap.drop skip, Text.isBlank c = true :=
      fun c hc => hg c (List.mem_of_mem_drop hc)
    have hnone := fields_blank hdrop []
    rw [List.append_nil] at hnone
    rw [List.nil_append, fieldsFrom_eq_drop, hnone]
    cases skip <;> rfl
  | cons c cs ih =>
    have hfield := field_append_blank hg (c :: cs)
    rw [List.cons_append] at hfield ⊢
    cases skip with
    | succ skip => exact ih skip
    | zero => rw [fieldsFrom, fieldsFrom, hfield, ih, ih]

/-- White space behind a text adds no field and changes none. -/
theorem fields_append_blank {gap : Text} (hg : ∀ c ∈ gap, Text.isBlank c = true) (t : Text) :
    fields (t ++ gap) = fields t := fieldsFrom_append_blank hg 0 t

/-- The characters that end a line are in none of its fields. -/
theorem fields_dropLineEnd (raw : Text) : fields (Text.dropLineEnd raw) = fields raw := by
  obtain ⟨ending, hraw, hblank⟩ := Text.dropLineEnd_append raw
  conv => rhs; rw [hraw]
  exact (fields_append_blank hblank _).symm

end TwoPass.Source
