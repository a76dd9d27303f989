import TwoPass.Proofs.Language
import TwoPass.Proofs.Meaning
import TwoPass.Proofs.Symbols

/-
  When a source is assembled, whatever the options are. Each rejection adds one condition to those
  of the language: that no label is defined twice, or that every name by which a code before END is
  adjusted is a label of the source (`Admissible`). No other input of the passes matters, the name
  of the file least of all (`assemble_isOk_iff_admissible`).
-/

namespace TwoPass

open Source

namespace Source

/-- The sources that are assembled under the given options. -/
structure Admissible (options : Options) (lines : List Text) : Prop where
  fits : Fits options.maxAddress 0 lines
  assembled : Assembled false lines
  distinct : options.rejectDuplicates = true → (labels lines).Nodup
  resolved : options.rejectUndefined = true →
    ∀ name ∈ relocations (beforeEnd lines), name ∈ labels lines

theorem mem_relocations {name : Text} {lines : List Text} : name ∈ relocations lines ↔
    ∃ raw ∈ lines, ∃ st, statement? raw = some st ∧ st.relocated = some name := by
  unfold relocations
  simp only [List.mem_filterMap]
  constructor
  · rintro ⟨st, ⟨raw, hraw, hst⟩, hr⟩
    exact ⟨raw, hraw, st, hst, hr⟩
  · rintro ⟨raw, hraw, st, hst, hr⟩
    exact ⟨st, ⟨raw, hraw, hst⟩, hr⟩

theorem Assembled.encodable {started : Bool} {lines : List Text} (h : Assembled started lines)
    {st : Statement} (hst : st ∈ coded (beforeEnd lines)) : st.Encodable := by
  obtain ⟨raw, hraw, hst⟩ := List.mem_filterMap.mp (List.mem_filter.mp hst).1
  exact (assembled_iff.mp h).2.2 raw hraw st hst

theorem relocations_upToEnd (source : List Line) :
    relocations ((upToEnd source).map Line.raw) =
      relocations (beforeEnd (source.map Line.raw)) := by
  induction source with
  | nil => rfl
  | cons line rest ih =>
    rw [upToEnd, List.map_cons]
    cases hend : isEnd line.raw with
    | true =>
      rw [if_pos rfl, List.map_singleton, relocations_end hend, beforeEnd_end hend]
      rfl
    | false =>
      rw [if_neg Bool.false_ne_true, List.map_cons, beforeEnd_cons hend, ← List.singleton_append,
        relocations_append, ih, ← relocations_append]
      rfl

theorem forall_resolved_iff {options : Options} {symbols : SymbolTable} {source : List Line} :
    (∀ line ∈ source, Resolved options symbols line.raw) ↔ (options.rejectUndefined = true →
      ∀ name ∈ relocations (source.map Line.raw), symbols.contains name = true) := by
  constructor
  · intro h hu name hname
    obtain ⟨raw, hraw, st, hst, hr⟩ := mem_relocations.mp hname
    obtain ⟨line, hline, rfl⟩ := List.mem_map.mp hraw
    exact h line hline st hst hu name hr
  · intro h line hline st hst hu name hr
    exact h hu name (mem_relocations.mpr ⟨line.raw, List.mem_map_of_mem hline, st, hst, hr⟩)

end Source

/-- Which sources are assembled under any options. -/
theorem assemble_isOk_iff_admissible {options : Options} {file : Text} {lines : List Text} :
    (∃ done, (assemble options file lines).result = .ok done) ↔ Admissible options lines := by
  rw [assemble_isOk_iff]
  simp only [forall_resolved_iff, relocations_upToEnd, numberLines_raw]
  constructor
  · rintro ⟨s, hs, hassembled, hresolved⟩
    have hlaid := (layOut_ok hs).1
    rw [numberLines_raw] at hlaid
    refine ⟨hlaid.1, hassembled, hlaid.2, fun hu name hname => ?_⟩
    exact (layOut_contains_iff hs).mp (hresolved hu name hname)
  · intro h
    rcases layOut_cases options (numberLines file lines) with ⟨s, hs, -⟩ | ⟨i, -, -, hno⟩
    · refine ⟨s, hs, h.assembled, fun hu name hname => ?_⟩
      exact (layOut_contains_iff hs).mpr (h.resolved hu name hname)
    · rw [numberLines_raw] at hno
      exact absurd ⟨h.fits, h.distinct⟩ hno

end TwoPass
