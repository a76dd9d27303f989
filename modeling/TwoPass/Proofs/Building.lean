import TwoPass.Proofs.Records

/-
  Object programs that calls build in any order. Whatever the order, a program has the header and
  the end record that were set last, and all text and modification records in the order in which
  they were added: one call does this (`apply_eq`), so all of them do (`build_eq`). If the values
  that are set and added keep to their fields, the file of the program is read back as these
  records, and the object code of the program is that of the file (`parse_build`).
-/

namespace TwoPass.ObjectProgram

open Object

/-- A call on a program under construction. -/
inductive Call
  | setHeader (header : Header)
  | addText (code : Text)
  | addModifications (entries : List Modification)
  | setEnd (entry : Int)
  deriving DecidableEq

namespace Call

def apply (p : ObjectProgram) : Call → ObjectProgram
  | .setHeader header => p.setHeader header
  | .addText code => p.addText code
  | .addModifications entries => p.addModifications entries
  | .setEnd entry => p.setEnd entry

def headers : Call → List Header
  | .setHeader header => [header]
  | _ => []

def texts : Call → List TextRecord
  | .addText code => [{ code }]
  | _ => []

def modifications : Call → List Modification
  | .addModifications entries => entries
  | _ => []

def ends : Call → List EndRecord
  | .setEnd entry => [{ entry }]
  | _ => []

/-- Calls whose values keep to the widths of their fields and hold no line break. -/
def Valid : Call → Prop
  | .setHeader header =>
    (0 ≤ header.load ∧ header.load ≤ 0xFFFFFF) ∧ (0 ≤ header.length ∧ header.length ≤ 0xFFFFFF) ∧
      ∀ c ∈ header.name, Text.isLineBreak c = false
  | .addText code => code.length % 2 = 0 ∧ ∀ c ∈ code, c ∈ Hex.alphabet
  | .addModifications entries => ∀ m ∈ entries,
    (0 ≤ m.start ∧ m.start ≤ 0xFFFFFF) ∧ (0 ≤ m.halfBytes ∧ m.halfBytes ≤ 0xFF) ∧
      m.symbol ≠ [] ∧ ∀ c ∈ m.symbol, Text.isLineBreak c = false
  | .setEnd entry => 0 ≤ entry ∧ entry ≤ 0xFFFFFF

-- Characters are tried one by one along a text, not over their whole type.
instance : DecidablePred Valid
  | .setHeader header =>
    haveI := List.decidableBAll (fun c => Text.isLineBreak c = false) header.name
    inferInstanceAs (Decidable (_ ∧ _))
  | .addText code =>
    haveI := List.decidableBAll (· ∈ Hex.alphabet) code
    inferInstanceAs (Decidable (_ ∧ _))
  | .addModifications entries =>
    haveI := fun m : Modification =>
      List.decidableBAll (fun c => Text.isLineBreak c = false) m.symbol
    List.decidableBAll _ entries
  | .setEnd _ => inferInstanceAs (Decidable (_ ∧ _))

/-- A call replaces the header or the end by its own, if it has one, and adds its other records. -/
theorem apply_eq (p : ObjectProgram) (call : Call) : call.apply p =
    { header := call.headers.getLast?.or p.header
      text := p.text ++ call.texts
      modifications := p.modifications ++ call.modifications
      finish := call.ends.getLast?.or p.finish } := by
  cases call <;>
    simp [apply, headers, texts, modifications, ends, ObjectProgram.setHeader,
      ObjectProgram.addText, ObjectProgram.addModifications, ObjectProgram.setEnd]

end Call

/-- The program that calls build, one after the other. -/
def build (calls : List Call) : ObjectProgram := calls.foldl Call.apply {}

theorem foldl_apply (p : ObjectProgram) (calls : List Call) : calls.foldl Call.apply p =
    { header := (calls.flatMap Call.headers).getLast?.or p.header
      text := p.text ++ calls.flatMap Call.texts
      modifications := p.modifications ++ calls.flatMap Call.modifications
      finish := (calls.flatMap Call.ends).getLast?.or p.finish } := by
  induction calls generalizing p with
  | nil => simp
  | cons call rest ih =>
    rw [List.foldl_cons, ih, Call.apply_eq]
    simp only [List.flatMap_cons, List.getLast?_append, Option.or_assoc, List.append_assoc]

/-- A program has the header and the end that were set last, and the other records as they were
    added. -/
theorem build_eq (calls : List Call) : build calls =
    { header := (calls.flatMap Call.headers).getLast?
      text := calls.flatMap Call.texts
      modifications := calls.flatMap Call.modifications
      finish := (calls.flatMap Call.ends).getLast? } := by
  rw [build, foldl_apply]
  simp

/-! ## Values of valid calls -/

section Valid

variable {calls : List Call}

theorem header_valid (hvalid : ∀ call ∈ calls, call.Valid) {h : Header}
    (hh : h ∈ calls.flatMap Call.headers) : FitsField h.load ∧ FitsField h.length ∧
      ∀ c ∈ h.name, Text.isLineBreak c = false := by
  obtain ⟨call, hcall, hmem⟩ := List.mem_flatMap.mp hh
  have hv := hvalid call hcall
  cases call with
  | setHeader header =>
    rw [List.mem_singleton.mp hmem]
    obtain ⟨hload, hlength, hname⟩ := hv
    unfold FitsField
    exact ⟨by omega, by omega, hname⟩
  | _ => exact absurd hmem List.not_mem_nil

theorem text_valid (hvalid : ∀ call ∈ calls, call.Valid) {t : TextRecord}
    (ht : t ∈ calls.flatMap Call.texts) :
    t.code.length % 2 = 0 ∧ ∀ c ∈ t.code, Hex.isDigit c = true := by
  obtain ⟨call, hcall, hmem⟩ := List.mem_flatMap.mp ht
  have hv := hvalid call hcall
  cases call with
  | addText code =>
    rw [List.mem_singleton.mp hmem]
    exact ⟨hv.1, fun c hc => Hex.isDigit_iff.mpr (hv.2 c hc)⟩
  | _ => exact absurd hmem List.not_mem_nil

theorem modification_valid (hvalid : ∀ call ∈ calls, call.Valid) {m : Modification}
    (hm : m ∈ calls.flatMap Call.modifications) : FitsField m.start ∧
      (0 ≤ m.halfBytes ∧ m.halfBytes < 16 ^ 2) ∧ m.symbol ≠ [] ∧
      ∀ c ∈ m.symbol, Text.isLineBreak c = false := by
  obtain ⟨call, hcall, hmem⟩ := List.mem_flatMap.mp hm
  have hv := hvalid call hcall
  cases call with
  | addModifications entries =>
    obtain ⟨hstart, hhalf, hsymbol⟩ := hv m hmem
    unfold FitsField
    exact ⟨by omega, by omega, hsymbol⟩
  | _ => exact absurd hmem List.not_mem_nil

theorem end_valid (hvalid : ∀ call ∈ calls, call.Valid) {e : EndRecord}
    (he : e ∈ calls.flatMap Call.ends) : FitsField e.entry := by
  obtain ⟨call, hcall, hmem⟩ := List.mem_flatMap.mp he
  have hv := hvalid call hcall
  cases call with
  | setEnd entry =>
    rw [List.mem_singleton.mp hmem]
    have hfits : 0 ≤ entry ∧ entry ≤ 0xFFFFFF := hv
    show 0 ≤ entry ∧ entry < 16 ^ 6
    omega
  | _ => exact absurd hmem List.not_mem_nil

end Valid

/-- A program that valid calls build, in any order, is read back from its file: with the header set
    last, its name cut to six characters and without blanks at its end, with the end set last, and
    with all other records as they were added. Program and file have the same object code. -/
theorem parse_build {calls : List Call} (hvalid : ∀ call ∈ calls, call.Valid)
    (hheader : calls.flatMap Call.headers ≠ []) (hend : calls.flatMap Call.ends ≠ []) :
    ∃ f bytes, ObjectFile.parse (build calls).render = .ok f ∧
      f.header = ((calls.flatMap Call.headers).getLast hheader).trimmed ∧
      f.text = calls.flatMap Call.texts ∧
      f.modifications = calls.flatMap Call.modifications ∧
      f.finish = (calls.flatMap Call.ends).getLast hend ∧
      (build calls).objectCode = .ok bytes ∧ f.objectCode = .ok bytes := by
  let f : ObjectFile :=
    { header := (calls.flatMap Call.headers).getLast hheader
      text := calls.flatMap Call.texts
      modifications := calls.flatMap Call.modifications
      finish := (calls.flatMap Call.ends).getLast hend }
  have hbuild : build calls = f.program := by
    rw [build_eq, List.getLast?_eq_some_getLast hheader, List.getLast?_eq_some_getLast hend]
    rfl
  obtain ⟨hload, hlength, hname⟩ := header_valid hvalid (List.getLast_mem hheader)
  have htext : ∀ t ∈ f.text, t.code.length % 2 = 0 ∧ ∀ c ∈ t.code, Hex.isDigit c = true :=
    fun t ht => text_valid hvalid ht
  have hspelled : f.trimmed.Spelled f.program.lines := by
    refine ObjectFile.spelled_lines hload hlength htext (fun m hm => ?_)
      (end_valid hvalid (List.getLast_mem hend))
    obtain ⟨hstart, hhalf, hne, -⟩ := modification_valid hvalid hm
    exact ⟨hstart, hhalf, hne⟩
  have hunbroken : ∀ l ∈ f.program.lines, ∀ c ∈ l, Text.isLineBreak c = false := by
    refine (ObjectFile.lines_unbroken_iff fun t ht => (htext t ht).2).mpr ⟨?_, fun m hm => ?_⟩
    · exact fun c hc => hname c (List.mem_of_mem_take hc)
    · exact (modification_valid hvalid hm).2.2.2
  rw [hbuild]
  refine ⟨f.trimmed, f.text.flatMap fun t => Hex.decoded t.code,
    ObjectFile.parse_render hspelled hunbroken, rfl, rfl, rfl, rfl, ?_, ?_⟩
  · exact objectCode_decoded htext
  · exact ObjectFile.objectCode_digits htext

/-- Calls out of order, with a header and an end that are replaced and values at their limits. -/
def scattered : List Call := [
  .setEnd 0,
  .addModifications [{ start := 0xFFFFFF, halfBytes := 0xFF, symbol := "+" }],
  .addText "4c0000",
  .setHeader { name := "FIRST", load := 0, length := 0 },
  .addText "",
  .setEnd 0xFFFFFF,
  .setHeader { name := "TAIL  X", load := 0xFFFFFF, length := 0xFFFFFF },
  .addModifications [],
  .addText "Ff"]

theorem parse_build_scattered : (∀ call ∈ scattered, call.Valid) ∧
    ∃ f, ObjectFile.parse (build scattered).render = .ok f ∧
      f.header = { name := "TAIL", load := 0xFFFFFF, length := 0xFFFFFF } ∧
      f.text = [{ code := "4c0000" }, { code := [] }, { code := "Ff" }] ∧
      f.modifications = [{ start := 0xFFFFFF, halfBytes := 0xFF, symbol := "+" }] ∧
      f.finish = { entry := 0xFFFFFF } ∧
      (build scattered).objectCode = .ok [0x4C, 0x00, 0x00, 0xFF] ∧
      f.objectCode = .ok [0x4C, 0x00, 0x00, 0xFF] := by
  have hvalid : ∀ call ∈ scattered, call.Valid := by decide +kernel
  have hcode : (build scattered).objectCode = .ok [0x4C, 0x00, 0x00, 0xFF] := by decide +kernel
  obtain ⟨f, bytes, hf, hheader, htext, hmodifications, hfinish, hbuilt, hread⟩ :=
    parse_build hvalid (by decide) (by decide)
  cases hcode.symm.trans hbuilt
  exact ⟨hvalid, f, hf, hheader, htext, hmodifications, hfinish, hcode, hread⟩

end TwoPass.ObjectProgram
