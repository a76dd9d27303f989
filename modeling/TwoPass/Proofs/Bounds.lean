import TwoPass.Proofs.Acceptance
import TwoPass.Proofs.Agreement

/-
  Addresses below the limit and codes within their fields. The limit is checked before every line
  and never behind the last one, and START may put the counter anywhere. But END stands behind
  every line that has a code and behind the START before it, so each of them is followed by a line
  that was checked: it ends below the limit (`addresses_below_limit`). A START in the last line of
  all is followed by none, and the load address that it makes the layout report may be anything
  (`reported_load_beyond_limit`). Where the limit is at most `0x10000` addresses keep to four
  digits, an instruction to six, and any code to the length that the longest operand of a constant
  allows.
-/

namespace TwoPass

open Source Object

/-! ## Widths of codes -/

theorem ByteLiteral.size_le (l : ByteLiteral) : l.size + 3 ≤ l.text.length := by
  cases l <;> simp [size, text]
  omega

namespace Statement

variable {address : Text → Nat} {st : Statement}

theorem isDigit_of_mem_code (h : st.Encodable) {c : Char} (hc : c ∈ st.code address) :
    Hex.isDigit c = true := by
  cases ho : st.operation with
  | unknown name =>
    rw [Encodable, ho] at h
    exact absurd h id
  | instruction m =>
    rw [code_instruction_padded ho] at hc
    rcases List.mem_append.mp hc with hc | hc
    · exact Hex.isDigit_of_mem_digits hc
    · exact Hex.isDigit_of_mem_padded hc
  | directive d =>
    rw [code, ho] at hc
    cases d with
    | word => exact Hex.isDigit_of_mem_digits hc
    | byte =>
      rw [Encodable, ho] at h
      obtain ⟨t, hop, -, l, rfl, hw, -⟩ := h
      rw [hop] at hc
      exact Code.isDigit_of_mem_literalCode hw hc
    | _ => exact absurd hc List.not_mem_nil

/-- A code is whole bytes, at most 57 of them, if addresses keep to four digits. -/
theorem code_bytes (ha : ∀ name, address name < 16 ^ 4) (h : st.Encodable) :
    (st.code address).length % 2 = 0 ∧ (st.code address).length ≤ 114 := by
  cases ho : st.operation with
  | unknown name =>
    rw [Encodable, ho] at h
    exact absurd h id
  | instruction m =>
    rw [code_instruction_digits ho ha, List.length_append, Hex.length_digits, Hex.length_digits]
    decide
  | directive d =>
    cases d with
    | word =>
      rw [code, ho]
      dsimp only
      rw [Hex.length_digits]
      decide
    | byte =>
      rw [Encodable, ho] at h
      obtain ⟨t, hop, hlong, l, rfl, hw, -⟩ := h
      have hcode : st.code address = Code.literalCode l.text := by
        rw [code, ho, hop]
        rfl
      have hlength := Code.length_literalCode hw
      have hsize := l.size_le
      rw [hcode]
      omega
    | _ =>
      have hcode : st.code address = [] := by rw [code, ho]
      rw [hcode]
      decide

theorem code_instruction_upper {m : Mnemonic} (ho : st.operation = .instruction m)
    (ha : ∀ name, address name < 16 ^ 4) : (st.code address).length = 6 ∧
      ∀ c ∈ st.code address, c ∈ "0123456789ABCDEF".toList := by
  rw [code_instruction_digits ho ha, List.length_append, Hex.length_digits, Hex.length_digits]
  refine ⟨rfl, fun c hc => ?_⟩
  rcases List.mem_append.mp hc with hc | hc <;> exact Hex.mem_upper_of_mem_digits hc

end Statement

/-! ## Addresses -/

namespace Source

variable {limit : Int} {lines : List Text}

theorem addressAt_lt (hf : Fits limit 0 lines) {i : Nat} (hi : i < lines.length) :
    (addressAt lines i : Int) < limit := (fits_iff.mp hf).2 i hi

/-- A name that stands for an address has that of a line. -/
theorem labelAddress_eq {label : Text} (h : label ∈ labels lines) :
    ∃ i, i < lines.length ∧ labelAddress lines label = addressAt lines i := by
  refine ⟨_, findIdx_defines_lt h, ?_⟩
  unfold labelAddress
  rw [findIdx?_defines h]

theorem labelAddress_undefined {label : Text} (h : label ∉ labels lines) :
    labelAddress lines label = 0 := by
  unfold labelAddress
  rw [findIdx?_defines_none h]

theorem labelAddress_lt (hf : Fits limit 0 lines) (hl : limit ≤ 0x10000) (label : Text) :
    labelAddress lines label < 0x10000 := by
  by_cases h : label ∈ labels lines
  · obtain ⟨i, hi, haddress⟩ := labelAddress_eq h
    have hlt := addressAt_lt hf hi
    omega
  · rw [labelAddress_undefined h]
    decide

namespace Outline

/-- The line behind START is reached at the load address. -/
theorem addressAt_start (o : Outline lines) : addressAt lines (o.opening.length + 1) = o.load := by
  have hget : lines[o.opening.length]? = some o.startLine := by
    have := congrArg (fun ls => ls[o.opening.length]?) o.cut
    simpa using this
  rw [addressAt_succ hget, count_start o.isStart.1 o.isStart.2]
  rfl

theorem load_lt (o : Outline lines) (hf : Fits limit 0 lines) : (o.load : Int) < limit := by
  have hlength := congrArg List.length o.cut
  simp only [List.length_append, List.length_cons] at hlength
  rw [← o.addressAt_start]
  exact addressAt_lt hf (by omega)

theorem beforeEnd_eq (o : Outline lines) :
    beforeEnd lines = o.opening ++ o.startLine :: o.middle := by
  have hstart : Source.isEnd o.startLine = false :=
    isEnd_of_isStart (holds_iff.mpr ⟨o.start, o.isStart⟩)
  have hbefore : ∀ raw ∈ o.opening ++ o.startLine :: o.middle, Source.isEnd raw = false := by
    intro raw hr
    rcases List.mem_append.mp hr with hr | hr
    · exact (o.plain raw (List.mem_append_left _ hr)).2
    · rcases List.mem_cons.mp hr with rfl | hr
      · exact hstart
      · exact (o.plain raw (List.mem_append_right _ hr)).2
  calc beforeEnd lines
      = beforeEnd (o.opening ++ o.startLine :: (o.middle ++ o.endLine :: o.rest)) :=
        congrArg beforeEnd o.cut
    _ = beforeEnd ((o.opening ++ o.startLine :: o.middle) ++ o.endLine :: o.rest) := by
        rw [List.append_assoc, List.cons_append]
    _ = o.opening ++ o.startLine :: o.middle := by
        rw [beforeEnd_append hbefore, beforeEnd_end o.isEnd, List.append_nil]

theorem cut_beforeEnd (o : Outline lines) : lines = beforeEnd lines ++ o.endLine :: o.rest := by
  rw [o.beforeEnd_eq, List.append_assoc, List.cons_append]
  exact o.cut

theorem take_end (o : Outline lines) :
    lines.take ((beforeEnd lines).length + 1) = beforeEnd lines ++ [o.endLine] := by
  have hcut : lines = (beforeEnd lines ++ [o.endLine]) ++ o.rest := by
    rw [List.append_assoc]
    exact o.cut_beforeEnd
  have htake := congrArg (List.take ((beforeEnd lines).length + 1)) hcut
  rwa [List.take_left' (by rw [List.length_append]; rfl)] at htake

theorem length_beforeEnd_lt (o : Outline lines) : (beforeEnd lines).length < lines.length := by
  have hlength := congrArg List.length o.cut_beforeEnd
  rw [List.length_append, List.length_cons] at hlength
  omega

end Outline

end Source

theorem Layout.behind_load (l : Layout) (c : Nat) (line : Line) :
    (l.behind line).load = if isStart line.raw then (count c line.raw : Int) else l.load := by
  unfold behind
  cases hst : statement? line.raw with
  | none => simp [isStart, holds, hst]
  | some st =>
    rw [isStart, holds_of_statement hst]
    by_cases hs : st.operation = .directive .start
    · simp [hs, count_start hst hs]
    · simp [hs]

/-- The load address of a layout is where its last START put the counter. -/
theorem Layout.foldl_behind_load (l : Layout) (c : Nat) (source : List Line) :
    (source.foldl behind l).load = l.load ∨ ∃ i line, source[i]? = some line ∧
      isStart line.raw = true ∧ (source.foldl behind l).load =
        (countFrom c ((source.take (i + 1)).map Line.raw) : Int) := by
  induction source generalizing l c with
  | nil => exact .inl rfl
  | cons line rest ih =>
    rw [List.foldl_cons]
    rcases ih (l.behind line) (count c line.raw) with hload | ⟨i, line', hget, hstart, hload⟩
    · rw [hload, behind_load l c]
      cases hs : isStart line.raw with
      | false => exact .inl rfl
      | true => exact .inr ⟨0, line, rfl, hs, rfl⟩
    · exact .inr ⟨i + 1, line', hget, hstart, hload⟩

section Assembly

variable {options : Options} {file : Text} {lines : List Text} {done : Assembly}

/-- The listing of a source that was assembled has an entry for each line up to END. -/
theorem listing_of_assemble (h : (assemble options file lines).result = .ok done) {i : Nat}
    {raw : Text} (hi : i ≤ (beforeEnd lines).length) (hraw : lines[i]? = some raw) :
    (assemble options file lines).listing[i]? =
      some (entry (labelAddress lines) (addressAt lines i)
        { location := { file, line := (i : Int) + 1 }, raw }) := by
  obtain ⟨-, -, -, hlist⟩ := assemble_ok h
  have hmin : min i ((beforeEnd lines).length + 1) = i := by omega
  rw [hlist, generated_listing, entriesFrom_getElem?, upToEnd_eq_take, numberLines_raw,
    List.getElem?_take, if_pos (by omega), numberLines_getElem?, hraw, List.take_take, hmin,
    numberLines_take, numberLines_raw]
  rfl

/-- The load address that a layout reports is no less than zero, and below the limit if a line
    follows the last START. -/
theorem layout_load_bounds (h : (assemble options file lines).result = .ok done) :
    0 ≤ done.layout.load ∧ ((∀ raw, lines.getLast? = some raw → isStart raw = false) →
      done.layout.load < options.maxAddress) := by
  obtain ⟨s, hs, hlayout⟩ := assemble_layout h
  have hadmissible := assemble_isOk_iff_admissible.mp ⟨done, h⟩
  obtain ⟨o⟩ := Outline.exists_of_assembled hadmissible.assembled
  rw [← hlayout, layOut_layout hs]
  rcases Layout.foldl_behind_load {} 0 (numberLines file lines) with
    hload | ⟨i, line, hget, hstart, hload⟩
  · have hzero : (addressAt lines 0 : Int) < options.maxAddress :=
      addressAt_lt hadmissible.fits (Nat.lt_of_le_of_lt (Nat.zero_le _) o.length_beforeEnd_lt)
    rw [hload]
    exact ⟨Int.le_refl 0, fun _ => hzero⟩
  · rw [numberLines_getElem?] at hget
    obtain ⟨raw, hraw, rfl⟩ := Option.map_eq_some_iff.mp hget
    rw [hload, numberLines_take, numberLines_raw]
    refine ⟨Int.natCast_nonneg _, fun hlast => ?_⟩
    have hi : i < lines.length := (List.getElem?_eq_some_iff.mp hraw).1
    have hnext : i + 1 < lines.length := by
      apply Nat.lt_of_le_of_ne hi
      intro hend
      have hindex : lines.length - 1 = i := by omega
      have hraw' : lines.getLast? = some raw := by
        rw [List.getLast?_eq_getElem?, hindex, hraw]
      rw [hlast raw hraw'] at hstart
      cases hstart
    exact addressAt_lt hadmissible.fits hnext

theorem symbol_address_lt (h : (assemble options file lines).result = .ok done) {symbol : Symbol}
    (hs : symbol ∈ done.layout.symbols.symbols) :
    0 ≤ symbol.address ∧ symbol.address < options.maxAddress := by
  obtain ⟨s, hs₁, hlayout⟩ := assemble_layout h
  rw [← hlayout] at hs
  have hname : symbol.name ∈ labels lines := by
    rw [← layOut_contains_iff hs₁, SymbolTable.contains_iff]
    exact List.mem_map_of_mem hs
  obtain ⟨i, hi, haddress⟩ := labelAddress_eq hname
  have hlt := addressAt_lt (assemble_isOk_iff_admissible.mp ⟨done, h⟩).fits hi
  rw [layOut_address hs₁ hs, haddress]
  exact ⟨Int.natCast_nonneg _, hlt⟩

/-- The line behind a statement before END is reached below the limit. -/
theorem statement_end_lt (ha : Admissible options lines) {i : Nat} {raw : Text} {st : Statement}
    (hi : i < (beforeEnd lines).length) (hraw : lines[i]? = some raw)
    (hst : statement? raw = some st) (ho : st.operation ≠ .directive .start) :
    ((addressAt lines i + st.bytes : Nat) : Int) < options.maxAddress := by
  obtain ⟨o⟩ := Outline.exists_of_assembled ha.assembled
  have hnext : i + 1 < lines.length := by
    have := o.length_beforeEnd_lt
    omega
  have hlt := addressAt_lt ha.fits hnext
  rwa [addressAt_succ hraw, count_plain hst ho] at hlt

/-- A text record is some statement's code. -/
theorem exists_statement_of_text (h : (assemble options file lines).result = .ok done)
    {r : TextRecord} (hr : r ∈ done.program.text) : ∃ raw ∈ beforeEnd lines, ∃ st,
      statement? raw = some st ∧ r.code = st.code (labelAddress lines) ∧ r.code ≠ [] := by
  obtain ⟨o⟩ := Outline.exists_of_assembled (assemble_isOk_iff_admissible.mp ⟨done, h⟩).assembled
  rw [program_of_assemble h o] at hr
  obtain ⟨code, hcode, rfl⟩ := List.mem_map.mp hr
  obtain ⟨hcode, hne⟩ := List.mem_filter.mp hcode
  obtain ⟨st, hst, rfl⟩ := List.mem_map.mp hcode
  obtain ⟨raw, hraw, hst⟩ := List.mem_filterMap.mp hst
  rw [← o.beforeEnd_eq] at hraw
  exact ⟨raw, hraw, st, hst, rfl, by simpa using hne⟩

/-- What the limit of the options bounds in a source that was assembled. -/
structure WithinLimit (options : Options) (file : Text) (lines : List Text) (done : Assembly) :
    Prop where
  load : ∃ header, done.program.header = some header ∧
    0 ≤ header.load ∧ header.load < options.maxAddress
  /-- The layout reports the address of the last START, which a line must follow to be checked. -/
  reported : 0 ≤ done.layout.load ∧
    ((∀ raw, lines.getLast? = some raw → isStart raw = false) →
      done.layout.load < options.maxAddress)
  symbols : ∀ symbol ∈ done.layout.symbols.symbols,
    0 ≤ symbol.address ∧ symbol.address < options.maxAddress
  /-- A statement before END is listed at its address, and its bytes end below the limit. -/
  statements : ∀ (i : Nat) raw st, i < (beforeEnd lines).length → lines[i]? = some raw →
    statement? raw = some st → st.operation ≠ .directive .start →
    ∃ e a size, (assemble options file lines).listing[i]? = some e ∧ e.address = some a ∧
      st.operation.size st.operand = .ok size ∧
      0 ≤ a ∧ a ≤ a + size ∧ a + size < options.maxAddress ∧
      (options.maxAddress ≤ 0x10000 → ∀ m, st.operation = .instruction m →
        e.code.length = 6 ∧ ∀ c ∈ e.code, c ∈ "0123456789ABCDEF".toList)
  records : options.maxAddress ≤ 0x10000 → ∀ r ∈ done.program.text,
    r.code.length % 2 = 0 ∧ 2 ≤ r.code.length ∧ r.code.length ≤ 114 ∧
      ∀ c ∈ r.code, Hex.isDigit c = true

/-- Whatever the limit is, the load address of the header, the symbols and all statements before END
    keep below it, and so does the load address that is reported unless the last line is a START; a
    limit of at most `0x10000` keeps every code to the width of its record. -/
theorem addresses_below_limit (h : (assemble options file lines).result = .ok done) :
    WithinLimit options file lines done := by
  have hadmissible := assemble_isOk_iff_admissible.mp ⟨done, h⟩
  have hencodable := (assembled_iff.mp hadmissible.assembled).2.2
  obtain ⟨o⟩ := Outline.exists_of_assembled hadmissible.assembled
  refine ⟨?_, layout_load_bounds h, fun symbol => symbol_address_lt h, ?_, ?_⟩
  · exact ⟨_, header_of_assemble h o, Int.natCast_nonneg _, o.load_lt hadmissible.fits⟩
  · intro i raw st hi hraw hst ho
    have hend := statement_end_lt hadmissible hi hraw hst ho
    have hsizable : st.Sizable :=
      ((fits_iff.mp hadmissible.fits).1 raw (List.mem_of_getElem? hraw)).sizable st hst
    have hstart : isStart raw = false := by
      rw [isStart, holds_of_statement hst]
      simpa using ho
    refine ⟨_, addressAt lines i, st.bytes, listing_of_assemble h (Nat.le_of_lt hi) hraw, ?_,
      Statement.size_sizable ho hsizable, by omega, by omega, by omega, ?_⟩
    · rw [entry_address, hst]
      simp [hstart]
    · intro hlimit m hm
      have hcode := Statement.code_instruction_upper hm (labelAddress_lt hadmissible.fits hlimit)
      simpa [entry, hst] using hcode
  · intro hlimit r hr
    obtain ⟨raw, hraw, st, hst, hcode, hne⟩ := exists_statement_of_text h hr
    have hst := hencodable raw hraw st hst
    have hbytes := Statement.code_bytes (labelAddress_lt hadmissible.fits hlimit) hst
    have hpos : 0 < r.code.length := List.length_pos_iff.mpr hne
    rw [← hcode] at hbytes
    refine ⟨hbytes.1, by omega, hbytes.2, fun c hc => ?_⟩
    rw [hcode] at hc
    exact Statement.isDigit_of_mem_code hst hc

end Assembly

/-- A source that ends one byte below the limit. -/
def Source.brink : List Text := [
  "PROG  START 7FF0",
  "      J     BIG",
  "BIG   RESB  11",
  "      END"]

theorem addresses_below_limit_brink : ∃ done, (assemble {} "brink.asm" brink).result = .ok done ∧
    done.layout.final = ({} : Options).maxAddress - 1 ∧
    done.program.text = [{ code := "3C7FF3".toList }] ∧
    WithinLimit {} "brink.asm" brink done := by
  have hrun : ∃ done, (assemble {} "brink.asm" brink).result = .ok done ∧
      done.layout.final = ({} : Options).maxAddress - 1 ∧
      done.program.text = [{ code := "3C7FF3".toList }] := ⟨_, rfl, by decide +kernel⟩
  obtain ⟨done, hdone, hfinal, htext⟩ := hrun
  exact ⟨done, hdone, hfinal, htext, addresses_below_limit hdone⟩

/-- A source with a second START in its last line, behind END. -/
def Source.restarted : List Text := [
  "A     START 0",
  "      END",
  "B     START FFFF"]

/-- No line follows the START of the last line, so the limit is not checked against its address. -/
theorem reported_load_beyond_limit : ¬ ∀ (options : Options) (file : Text) (lines : List Text) done,
    (assemble options file lines).result = .ok done →
    0 ≤ done.layout.load ∧ done.layout.load < options.maxAddress := by
  intro hall
  have hrun : ∃ done, (assemble {} "again.asm" restarted).result = .ok done ∧
      done.layout.load = 0xFFFF := ⟨_, rfl, by decide +kernel⟩
  obtain ⟨done, hdone, hload⟩ := hrun
  have hlt := (hall {} "again.asm" restarted done hdone).2
  rw [hload] at hlt
  exact absurd hlt (by decide)

end TwoPass
