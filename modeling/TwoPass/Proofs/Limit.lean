import TwoPass.Proofs.SecondPass

/-
  What the address limit does. The first pass compares the counter with it before each line, and
  nothing else looks at it: otherwise this pass goes by the rejection of duplicates
  (`Scan.statement_congr`), and the second one by the rejection of undefined names
  (`Generation.run_congr`). So a step is out of bounds or does the same below a higher limit
  (`step_raise`), and so does a run. An assembly that does not end at the limit is the same below
  every higher one (`assemble_raise`).
-/

namespace TwoPass

/-- Options that differ in nothing that assembling looks at, but for a higher limit. -/
structure Options.Raise (o o' : Options) : Prop where
  undefined : o'.rejectUndefined = o.rejectUndefined
  duplicates : o'.rejectDuplicates = o.rejectDuplicates
  limit : o.maxAddress ≤ o'.maxAddress

variable {o o' : Options}

/-! ## The first pass -/

namespace Scan

theorem statement_congr (hd : o'.rejectDuplicates = o.rejectDuplicates) (location : Location)
    (kind : LineKind) (st : Statement) (s : Scan) :
    s.statement o' location kind st = s.statement o location kind st := by
  unfold statement define
  rw [hd]

/-- A step is out of bounds, or the same below a higher limit. -/
theorem step_raise (h : o.Raise o') (s : Scan) (line : Line) :
    (∃ i, s.step o line = .error i ∧ i.fault.cause.category = .memoryBounds) ∨
    s.step o' line = s.step o line := by
  by_cases hb : o.maxAddress ≤ s.layout.final
  · obtain ⟨f, he, hf⟩ := step_out_of_bounds line hb
    exact .inl ⟨_, he, hf⟩
  · have hb' : ¬ o'.maxAddress ≤ s.layout.final := fun hb' => hb (h.limit.trans hb')
    refine .inr ?_
    unfold step
    rw [if_neg hb, if_neg hb']
    simp only [statement_congr h.duplicates]

theorem run_raise (h : o.Raise o') (s : Scan) (source : List Line) :
    (∃ i, source.foldlM (step o) s = .error i ∧ i.fault.cause.category = .memoryBounds) ∨
    source.foldlM (step o') s = source.foldlM (step o) s := by
  induction source generalizing s with
  | nil => exact .inr rfl
  | cons line rest ih =>
    rw [List.foldlM_cons, List.foldlM_cons]
    rcases step_raise h s line with ⟨i, he, hb⟩ | hsame
    · rw [he]
      exact .inl ⟨i, rfl, hb⟩
    · rw [hsame]
      cases s.step o line with
      | error i => exact .inr rfl
      | ok s₁ => exact ih s₁

end Scan

/-! ## The second pass -/

namespace Generation

theorem step_congr (hu : o'.rejectUndefined = o.rejectUndefined) (layout : Layout)
    (g : Generation) (line : Line) : g.step o' layout line = g.step o layout line := by
  unfold step emit Statement.encode Statement.target
  rw [hu]

theorem run_congr (hu : o'.rejectUndefined = o.rejectUndefined) (layout : Layout) (file : Text)
    (g : Generation) (source : List Line) :
    run o' layout file g source = run o layout file g source := by
  induction source generalizing g with
  | nil => rfl
  | cons line rest ih => simp only [run, step_congr hu, ih]

end Generation

/-! ## Both passes -/

/-- An assembly ends at the limit, or is the same below a higher one. -/
theorem bounds_or_same (h : o.Raise o') (file : Text) (lines : List Text) :
    (∃ fault, (assemble o file lines).result = .error fault ∧
      fault.cause.category = .memoryBounds) ∨
    assemble o' file lines = assemble o file lines := by
  unfold assemble layOut generate
  rcases Scan.run_raise h {} (numberLines file lines) with ⟨i, hi, hb⟩ | hsame
  · simp only [hi]
    exact .inl ⟨i.fault, rfl, hb⟩
  · simp only [hsame, Generation.run_congr h.undefined]
    exact .inr trivial

/-- An assembly that does not end at the address limit is the same below every higher limit: the
    same object program or the same fault, with the same symbols, listing and notices. -/
theorem assemble_raise (options : Options) {limit limit' : Int} (hle : limit ≤ limit')
    (file : Text) (lines : List Text)
    (h : ∀ fault, (assemble { options with maxAddress := limit } file lines).result =
      .error fault → fault.cause.category ≠ .memoryBounds) :
    assemble { options with maxAddress := limit' } file lines =
      assemble { options with maxAddress := limit } file lines := by
  have hraise : { options with maxAddress := limit : Options }.Raise
      { options with maxAddress := limit' } := ⟨rfl, rfl, hle⟩
  rcases bounds_or_same hraise file lines with ⟨fault, hresult, hbounds⟩ | hsame
  · exact absurd hbounds (h fault hresult)
  · exact hsame

/-- A source that needs a limit of `0x14` to come to its undefined name. -/
def Source.dangling : List Text := [
  "PROG  START 10",
  "      LDA   NONE",
  "      END"]

theorem assemble_raise_dangling : ∃ fault,
    (assemble { rejectUndefined := true, maxAddress := 0x14 } "prog.asm" Source.dangling).result =
      .error fault ∧ fault.cause.category = .undefinedSymbol ∧
    assemble { rejectUndefined := true, maxAddress := 0x8000 } "prog.asm" Source.dangling =
      assemble { rejectUndefined := true, maxAddress := 0x14 } "prog.asm" Source.dangling := by
  refine ⟨_, rfl, rfl, ?_⟩
  refine assemble_raise { rejectUndefined := true } (by decide) "prog.asm" Source.dangling ?_
  intro fault hfault
  cases hfault
  decide

end TwoPass
