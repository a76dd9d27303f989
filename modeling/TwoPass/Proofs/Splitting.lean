import TwoPass.Proofs.Fields

/-
  The fields of a text as the one way to cut it. A `Splitting` is white space, then fields with the
  white space behind each. It is `Valid` if every gap is white space and every field is the one that
  the text starts with there (`FieldOf`): the quoted literal, if there is one, and otherwise the
  longest run without white space. A valid splitting is a gap, a field, and a valid splitting of the
  rest (`valid_cons_iff`), and from this come its three properties, by induction on the pieces: its
  fields are those that are found in its text (`fields_text`), a text has no other (`Valid.ext`), and
  it has one (`exists_valid`).
-/

namespace TwoPass.Source

/-! ## The field that a text starts with -/

/-- A letter, a quote, a body without a quote, and a quote. -/
inductive IsLiteral : Text → Prop
  | intro {kind : Char} {body : Text} (hkind : kind = 'C' ∨ kind = 'X') (hbody : quote ∉ body) :
      IsLiteral (kind :: quote :: (body ++ [quote]))

/-- Characters at the start of a text, none of them white space, that no longer run extends. -/
structure IsRun (t run : Text) : Prop where
  nonempty : run ≠ []
  starts : run <+: t
  plain : ∀ c ∈ run, Text.isBlank c = false
  maximal : ∀ longer, run <+: longer → longer <+: t →
    (∀ c ∈ longer, Text.isBlank c = false) → longer = run

/-- The literal that a text starts with, and if it starts with none, the run. -/
inductive FieldOf (t : Text) : Text → Prop
  | literal {l : Text} (hl : IsLiteral l) (hstarts : l <+: t) : FieldOf t l
  | run {r : Text} (hnone : ∀ l, IsLiteral l → ¬ l <+: t) (hrun : IsRun t r) : FieldOf t r

theorem literal?_eq_some_iff_isLiteral {t l : Text} :
    literal? t = some l ↔ IsLiteral l ∧ l <+: t := by
  rw [literal?_eq_some_iff]
  constructor
  · rintro ⟨kind, body, rest, hkind, hbody, rfl, ht⟩
    exact ⟨.intro hkind hbody, rest, ht.symm⟩
  · rintro ⟨⟨hkind, hbody⟩, rest, ht⟩
    exact ⟨_, _, rest, hkind, hbody, rfl, ht.symm⟩

theorem plain_takeWhile (t : Text) :
    ∀ c ∈ t.takeWhile fun c => !Text.isBlank c, Text.isBlank c = false := by
  intro c hc
  have hpos := List.mem_takeWhile_imp hc
  simpa using hpos

/-- A run at the start of a text is part of the longest one. -/
theorem isPrefix_takeWhile {t run : Text} (hstarts : run <+: t)
    (hplain : ∀ c ∈ run, Text.isBlank c = false) : run <+: t.takeWhile fun c => !Text.isBlank c := by
  obtain ⟨rest, rfl⟩ := hstarts
  rw [List.takeWhile_append_of_pos fun c hc => by rw [hplain c hc]; rfl]
  exact List.prefix_append _ _

theorem isRun_iff {t run : Text} :
    IsRun t run ↔ run ≠ [] ∧ (t.takeWhile fun c => !Text.isBlank c) = run := by
  constructor
  · intro h
    refine ⟨h.nonempty, ?_⟩
    exact h.maximal _ (isPrefix_takeWhile h.starts h.plain) (List.takeWhile_prefix _)
      (plain_takeWhile t)
  · rintro ⟨hne, rfl⟩
    refine ⟨hne, List.takeWhile_prefix _, plain_takeWhile t, fun longer hrun hstarts hplain => ?_⟩
    have hle := (isPrefix_takeWhile hstarts hplain).length_le
    exact (hrun.eq_of_length (Nat.le_antisymm hrun.length_le hle)).symm

/-- The field that is found is the one that the text starts with. -/
theorem fieldOf_iff {t f : Text} : FieldOf t f ↔ f ≠ [] ∧ field t = f := by
  unfold field
  cases hl : literal? t with
  | some l =>
    obtain ⟨hlit, hstarts⟩ := literal?_eq_some_iff_isLiteral.mp hl
    dsimp only
    constructor
    · intro h
      cases h with
      | literal hf hfstarts =>
        have hsame := literal?_eq_some_iff_isLiteral.mpr ⟨hf, hfstarts⟩
        rw [hl, Option.some.injEq] at hsame
        exact ⟨hsame ▸ literal?_ne_nil hl, hsame⟩
      | run hnone _ => exact absurd hstarts (hnone l hlit)
    · rintro ⟨-, rfl⟩
      exact .literal hlit hstarts
  | none =>
    have hnone : ∀ l, IsLiteral l → ¬ l <+: t := by
      intro l hlit hstarts
      rw [literal?_eq_some_iff_isLiteral.mpr ⟨hlit, hstarts⟩] at hl
      cases hl
    dsimp only
    rw [← isRun_iff]
    constructor
    · intro h
      cases h with
      | literal hf hstarts => exact absurd hstarts (hnone f hf)
      | run _ hrun => exact hrun
    · exact .run hnone

theorem field_prefix (t : Text) : field t <+: t := by
  unfold field
  split
  · rename_i l hl
    exact (literal?_eq_some_iff_isLiteral.mp hl).2
  · exact List.takeWhile_prefix _

theorem FieldOf.head {t f : Text} (h : FieldOf t f) :
    ∃ c, f.head? = some c ∧ Text.isBlank c = false := by
  cases h with
  | literal hl _ =>
    obtain ⟨hkind, -⟩ := hl
    refine ⟨_, rfl, ?_⟩
    rcases hkind with rfl | rfl <;> decide
  | run _ hrun =>
    obtain ⟨c, cs, rfl⟩ := List.exists_cons_of_ne_nil hrun.nonempty
    exact ⟨c, rfl, hrun.plain c List.mem_cons_self⟩

/-! ## Splittings -/

/-- A text in pieces: white space, then fields, each with the white space behind it. -/
structure Splitting where
  lead : Text
  pieces : List (Text × Text)

namespace Splitting

/-- Fields and the gaps behind them, one after the other. -/
def spelled (pieces : List (Text × Text)) : Text := pieces.flatMap fun p => p.1 ++ p.2

def text (s : Splitting) : Text := s.lead ++ spelled s.pieces

def fields (s : Splitting) : List Text := s.pieces.map Prod.fst

def gaps (s : Splitting) : List Text := s.lead :: s.pieces.map Prod.snd

/-- Gaps are white space, and a field is what the text starts with where the field stands. -/
structure Valid (s : Splitting) : Prop where
  blank : ∀ gap ∈ s.gaps, ∀ c ∈ gap, Text.isBlank c = true
  field : ∀ before f gap after, s.pieces = before ++ (f, gap) :: after →
    FieldOf (f ++ (gap ++ spelled after)) f

variable {lead f gap : Text} {after : List (Text × Text)}

theorem text_cons : text ⟨lead, (f, gap) :: after⟩ = lead ++ (f ++ text ⟨gap, after⟩) := by
  simp only [text, spelled, List.flatMap_cons, List.append_assoc]

theorem valid_nil_iff : Valid ⟨lead, []⟩ ↔ ∀ c ∈ lead, Text.isBlank c = true := by
  constructor
  · exact fun h => h.blank lead List.mem_cons_self
  · intro h
    refine ⟨fun gap hgap => ?_, fun before f gap after he => ?_⟩
    · rw [List.mem_singleton.mp hgap]
      exact h
    · exact absurd he.symm (List.append_ne_nil_of_right_ne_nil _ (List.cons_ne_nil _ _))

/-- Behind the first gap stand a field and a valid splitting of the rest. -/
theorem valid_cons_iff : Valid ⟨lead, (f, gap) :: after⟩ ↔
    (∀ c ∈ lead, Text.isBlank c = true) ∧ FieldOf (f ++ text ⟨gap, after⟩) f ∧
      Valid ⟨gap, after⟩ := by
  constructor
  · intro h
    refine ⟨h.blank lead List.mem_cons_self, h.field [] f gap after rfl, ?_, ?_⟩
    · exact fun g hg => h.blank g (List.mem_cons_of_mem _ hg)
    · intro before g gap' after' he
      exact h.field ((f, gap) :: before) g gap' after' (congrArg _ he)
  · rintro ⟨hlead, hf, hrest⟩
    refine ⟨fun g hg => ?_, fun before g gap' after' he => ?_⟩
    · rcases List.mem_cons.mp hg with rfl | hg
      · exact hlead
      · exact hrest.blank g hg
    · cases before with
      | nil =>
        cases he
        exact hf
      | cons p before => exact hrest.field before g gap' after' (List.cons.inj he).2

/-- The fields of a valid splitting are found in its text. -/
theorem fields_text {s : Splitting} (h : s.Valid) : Source.fields s.text = s.fields := by
  obtain ⟨lead, pieces⟩ := s
  induction pieces generalizing lead with
  | nil => exact fields_blank (valid_nil_iff.mp h) []
  | cons p after ih =>
    obtain ⟨hlead, hf, hrest⟩ := valid_cons_iff.mp h
    rw [text_cons, fields_blank hlead, fields_append (fieldOf_iff.mp hf).2 hf.head, ih _ hrest]
    rfl

/-- The first gap is all the white space that the text starts with. -/
theorem Valid.lead_eq {s : Splitting} (h : s.Valid) : s.text.takeWhile Text.isBlank = s.lead := by
  obtain ⟨lead, pieces⟩ := s
  cases pieces with
  | nil =>
    rw [text, spelled, List.flatMap_nil, List.append_nil]
    exact List.takeWhile_eq_self_iff.mpr (valid_nil_iff.mp h)
  | cons p after =>
    obtain ⟨hlead, hf, -⟩ := valid_cons_iff.mp h
    obtain ⟨c, hc, hblank⟩ := hf.head
    obtain ⟨cs, hcs⟩ := List.head?_eq_some_iff.mp hc
    have hstop : ¬ Text.isBlank c = true := by rw [hblank]; exact Bool.false_ne_true
    rw [text_cons, hcs, List.cons_append, List.takeWhile_append_of_pos hlead,
      List.takeWhile_cons_of_neg hstop, List.append_nil]

theorem Valid.lead_unique {s s' : Splitting} (h : s.Valid) (h' : s'.Valid)
    (ht : s.text = s'.text) : s.lead = s'.lead := by
  rw [← h.lead_eq, ht, h'.lead_eq]

theorem Valid.fields_unique {s s' : Splitting} (h : s.Valid) (h' : s'.Valid)
    (ht : s.text = s'.text) : s.fields = s'.fields := by
  rw [← fields_text h, ht, fields_text h']

/-- A text is cut in one way at most. -/
theorem Valid.ext {s s' : Splitting} (h : s.Valid) (h' : s'.Valid) (ht : s.text = s'.text) :
    s = s' := by
  obtain ⟨lead, pieces⟩ := s
  induction pieces generalizing lead s' with
  | nil =>
    obtain ⟨lead', pieces'⟩ := s'
    cases pieces' with
    | nil =>
      have hlead : lead = lead' := h.lead_unique h' ht
      rw [hlead]
    | cons p' after' => cases h.fields_unique h' ht
  | cons p after ih =>
    obtain ⟨lead', pieces'⟩ := s'
    cases pieces' with
    | nil => cases h.fields_unique h' ht
    | cons p' after' =>
      obtain ⟨f, gap⟩ := p
      obtain ⟨f', gap'⟩ := p'
      have hlead : lead = lead' := h.lead_unique h' ht
      have hf : f = f' := List.head_eq_of_cons_eq (h.fields_unique h' ht)
      subst hlead hf
      -- behind the gap and the field that they share, both cut the same rest
      rw [text_cons, text_cons] at ht
      have hrest := List.append_cancel_left (List.append_cancel_left ht)
      cases ih (valid_cons_iff.mp h').2.2 gap (valid_cons_iff.mp h).2.2 hrest
      rfl

/-- A text can be cut: at its first field, and so on in what is left. -/
theorem exists_valid (t : Text) : ∃ s : Splitting, s.text = t ∧ s.Valid := by
  induction hn : t.length using Nat.strongRecOn generalizing t with
  | ind n ih =>
    have hlead : ∀ c ∈ t.takeWhile Text.isBlank, Text.isBlank c = true :=
      fun c hc => List.mem_takeWhile_imp hc
    have hcut : t.takeWhile Text.isBlank ++ t.dropWhile Text.isBlank = t :=
      List.takeWhile_append_dropWhile
    cases hrest : t.dropWhile Text.isBlank with
    | nil =>
      rw [hrest] at hcut
      exact ⟨⟨t.takeWhile Text.isBlank, []⟩, hcut, valid_nil_iff.mpr hlead⟩
    | cons c cs =>
      have hc : Text.isBlank c = false := by
        have hhead := List.head_dropWhile_not Text.isBlank (l := t) (by rw [hrest]; exact nofun)
        simpa only [hrest, List.head_cons] using hhead
      have hne := field_ne_nil hc cs
      obtain ⟨tail, htail⟩ := field_prefix (c :: cs)
      rw [hrest, ← htail] at hcut
      have hshorter : tail.length < n := by
        have hpos := List.length_pos_iff.mpr hne
        rw [← hn, ← hcut, List.length_append, List.length_append]
        omega
      obtain ⟨⟨gap, after⟩, htext, hvalid⟩ := ih tail.length hshorter tail rfl
      refine ⟨⟨t.takeWhile Text.isBlank, (field (c :: cs), gap) :: after⟩, ?_, ?_⟩
      · rw [text_cons, htext, hcut]
      · refine valid_cons_iff.mpr ⟨hlead, fieldOf_iff.mpr ⟨hne, ?_⟩, hvalid⟩
        rw [htext, htail]

end Splitting

/-- Cutting a text into its fields loses nothing and is done in one way. Every text is white space
    and fields with white space behind them, so that each field is the quoted literal that the text
    starts with there, or, if it starts with none, the longest run without white space. There is one
    such splitting of the text, and its fields are those that are found. -/
theorem fields_split_uniquely (t : Text) :
    (∃! s : Splitting, s.text = t ∧ s.Valid) ∧
      ∀ s : Splitting, s.text = t → s.Valid → s.fields = fields t := by
  constructor
  · obtain ⟨s, ht, hs⟩ := Splitting.exists_valid t
    refine ⟨s, ⟨ht, hs⟩, ?_⟩
    rintro s' ⟨ht', hs'⟩
    exact hs'.ext hs (ht'.trans ht.symm)
  · rintro s rfl hs
    exact (Splitting.fields_text hs).symm

-- A literal inside a run is none; one that ends needs no white space behind it; and an open quote
-- takes the next quote, wherever it stands.
example : fields "XC'A B'C'D'E\tX'1 C'2'" =
    ["XC'A".toList, "B'C'D'E".toList, "X'1 C'".toList, "2'".toList] := by decide

end TwoPass.Source
