import TwoPass.Proofs.Bounds
import TwoPass.Proofs.Records

/-
  Reading back what was assembled. Below a limit of `0x10000` every address that is written fits
  its field: a line is reached below the limit, START is followed by one, and the first line that
  defines a label is one. The codes are whole bytes then, so the file of an outline is well-formed
  but for its length, and `ObjectFile.parse_render_iff` applies (`readBack_iff`).
-/

namespace TwoPass

open Source Object

/-! ## Widths -/

namespace Source

variable {limit : Int} {lines : List Text}

namespace Outline

/-- The object program as a file. -/
def file (o : Outline lines) : ObjectFile :=
  { header := { name := o.name, load := o.load, length := o.length }
    text := o.program.text
    modifications := o.program.modifications
    finish := { entry := o.load } }

theorem program_file (o : Outline lines) : o.file.program = o.program := rfl

theorem ne_nil_of_mem_relocations {ls : List Text} {name : Text} (h : name ∈ relocations ls) :
    name ≠ [] := by
  obtain ⟨st, hst, hr⟩ := List.mem_filterMap.mp h
  obtain ⟨raw, -, hraw⟩ := List.mem_filterMap.mp hst
  obtain ⟨m, -, -, hop⟩ := Statement.relocated_eq_some_iff.mp hr
  exact operand_ne_nil hraw hop

theorem file_wellFormed (o : Outline lines) (hf : Fits limit 0 lines) (hl : limit ≤ 0x10000)
    (ha : Assembled false lines) : o.file.WellFormed := by
  have hload : FitsField o.load := by
    have := o.load_lt hf
    rw [fitsField_natCast]
    omega
  refine ⟨hload, ?_, ?_, hload⟩
  · intro r hr
    obtain ⟨code, hcode, rfl⟩ := List.mem_map.mp hr
    obtain ⟨st, hst, rfl⟩ := List.mem_map.mp (List.mem_filter.mp hcode).1
    obtain ⟨raw, hraw, hst⟩ := List.mem_filterMap.mp hst
    rw [← o.beforeEnd_eq] at hraw
    have hencodable := (assembled_iff.mp ha).2.2 raw hraw st hst
    exact ⟨(Statement.code_bytes (labelAddress_lt hf hl) hencodable).1,
      fun c => Statement.isDigit_of_mem_code hencodable⟩
  · intro m hm
    rcases List.mem_append.mp hm with hm | hm
    · obtain ⟨name, hname, rfl⟩ := List.mem_map.mp hm
      have hzero : FitsField 0 := ⟨by decide, by decide⟩
      exact ⟨hzero, rfl, ne_nil_of_mem_relocations hname⟩
    · obtain ⟨name, hname, rfl⟩ := List.mem_map.mp hm
      exact ⟨hload, rfl, ne_nil_of_mem_relocations hname⟩

end Outline

end Source

/-! ## Reading back -/

/-- Below a limit of `0x10000` what was assembled is read back as the records that were written,
    the name without the blanks at its end, exactly if the length fits its field and no line break
    stands in the name or in an operand by which a code is adjusted. Otherwise reading fails or
    gives other records. -/
theorem readBack_iff {options : Options} {file : Text} {lines : List Text} {done : Assembly}
    (hlimit : options.maxAddress ≤ 0x10000)
    (h : (assemble options file lines).result = .ok done) :
    ∃ o : Outline lines, done.program = o.program ∧
      (ObjectFile.parse done.program.render = .ok
        { header := { name := Text.trimEnd (o.name.take 6), load := o.load, length := o.length }
          text := done.program.text
          modifications := done.program.modifications
          finish := { entry := o.load } } ↔
        (0 ≤ o.length ∧ o.length ≤ 0xFFFFFF) ∧
        (∀ c ∈ o.name.take 6, Text.isLineBreak c = false) ∧
        ∀ name ∈ relocations (o.opening ++ o.middle), ∀ c ∈ name, Text.isLineBreak c = false) := by
  obtain ⟨⟨s, hs⟩, hassembled, -⟩ := assemble_ok h
  have hfits := layOut_fits hs
  rw [numberLines_raw] at hfits
  obtain ⟨o⟩ := Outline.exists_of_assembled hassembled
  have hprogram := program_of_assemble h o
  refine ⟨o, hprogram, ?_⟩
  have hlength : FitsField o.length ↔ 0 ≤ o.length ∧ o.length ≤ 0xFFFFFF := by
    unfold FitsField
    omega
  have hsymbols : (∀ m ∈ o.program.modifications, ∀ c ∈ m.symbol, Text.isLineBreak c = false) ↔
      ∀ name ∈ relocations (o.opening ++ o.middle), ∀ c ∈ name, Text.isLineBreak c = false := by
    simp only [Outline.program, relocations_append, List.forall_mem_append, List.forall_mem_map]
  rw [hprogram, ← hlength, ← hsymbols, ← o.program_file]
  exact ObjectFile.parse_render_iff (o.file_wellFormed hfits hlimit hassembled)

/-- A quoted field may hold a form feed, so that a code is adjusted by a name with a line break. -/
def Source.feed : List Text := ["NAME  START 0", "      LDA   C'A\x0cB'", "      END"]

theorem readBack_iff_feed : ∃ done, (assemble {} "feed.asm" feed).result = .ok done ∧
    ({} : Options).maxAddress ≤ 0x10000 ∧
    done.program.modifications.any (fun m => m.symbol.any Text.isLineBreak) = true ∧
    ∃ o : Outline feed, done.program = o.program ∧
      (ObjectFile.parse done.program.render = .ok
        { header := { name := Text.trimEnd (o.name.take 6), load := o.load, length := o.length }
          text := done.program.text
          modifications := done.program.modifications
          finish := { entry := o.load } } ↔
        (0 ≤ o.length ∧ o.length ≤ 0xFFFFFF) ∧
        (∀ c ∈ o.name.take 6, Text.isLineBreak c = false) ∧
        ∀ name ∈ relocations (o.opening ++ o.middle),
          ∀ c ∈ name, Text.isLineBreak c = false) := by
  have hrun : ∃ done, (assemble {} "feed.asm" feed).result = .ok done ∧
      done.program.modifications.any (fun m => m.symbol.any Text.isLineBreak) = true :=
    ⟨_, rfl, by decide +kernel⟩
  obtain ⟨done, hdone, hbreak⟩ := hrun
  have hlimit : ({} : Options).maxAddress ≤ 0x10000 := by decide
  exact ⟨done, hdone, hlimit, hbreak, readBack_iff hlimit hdone⟩

end TwoPass
