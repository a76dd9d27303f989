import Mathlib.Algebra.BigOperators.Ring.List
import TwoPass.Proofs.Grammar

/-
  Object files written and read back. A program is written as lines, each ended by a newline; they
  are read back as they were if none of them holds a line break (`recordLines_ended`), and the
  records that keep to the widths of their fields follow the grammar (`spelled_lines`). For the
  converse characters are counted. Reading takes in every character but the line breaks
  (`sum_recordLines`), and the records that are read account for exactly the characters of their
  lines (`Spelled.extent`), so that a file with a line break too many cannot give the same records.
  The object code of text records is a byte for each pair of digits (`objectCode_digits`).
-/

namespace TwoPass

open Object

/-! ## Lines -/

namespace Text

theorem isLineBreak_of_isDigit {c : Char} (h : Hex.isDigit c = true) : isLineBreak c = false := by
  have hrange := Hex.range_of_isDigit h
  rw [← Bool.not_eq_true]
  intro hb
  simp only [isLineBreak, inRanges, List.any_cons, List.any_nil, Bool.or_false, Bool.or_eq_true,
    Bool.and_eq_true, decide_eq_true_eq] at hb
  omega

theorem recordLines_cons {c : Char} (h : isLineBreak c = false) (cs : Text) :
    recordLines (c :: cs) = consLine c (recordLines cs) := by
  have hr : isLineBreak '\r' = true := by decide
  rw [recordLines, h]
  · rfl
  · rintro _ rfl -
    rw [hr] at h
    cases h

theorem recordLines_newline (cs : Text) : recordLines ('\n' :: cs) = [] :: recordLines cs := by
  have hb : isLineBreak '\n' = true := by decide
  rw [recordLines, if_pos hb]
  nofun

/-- Lines that hold no line break are found again. -/
theorem recordLines_ended {ls : List Text} (h : ∀ l ∈ ls, ∀ c ∈ l, isLineBreak c = false) :
    recordLines (ls.flatMap (· ++ ['\n'])) = ls := by
  have hline : ∀ (l rest : Text), (∀ c ∈ l, isLineBreak c = false) →
      recordLines (l ++ '\n' :: rest) = l :: recordLines rest := by
    intro l rest hl
    induction l with
    | nil => exact recordLines_newline rest
    | cons c cs ih =>
      rw [List.forall_mem_cons] at hl
      rw [List.cons_append, recordLines_cons hl.1, ih hl.2]
      rfl
  induction ls with
  | nil => rfl
  | cons l ls ih =>
    rw [List.forall_mem_cons] at h
    rw [List.flatMap_cons, List.append_assoc, List.singleton_append, hline l _ h.1, ih h.2]

theorem isLineBreak_of_mem_consLine {c : Char} {ls : List Text} (hc : isLineBreak c = false)
    (h : ∀ l ∈ ls, ∀ d ∈ l, isLineBreak d = false) :
    ∀ l ∈ consLine c ls, ∀ d ∈ l, isLineBreak d = false := by
  cases ls with
  | nil => simpa [consLine] using hc
  | cons l ls =>
    rw [List.forall_mem_cons] at h
    rw [consLine, List.forall_mem_cons, List.forall_mem_cons]
    exact ⟨⟨hc, h.1⟩, h.2⟩

/-- The lines of a text hold no line break. -/
theorem isLineBreak_of_mem_recordLines (t : Text) :
    ∀ l ∈ recordLines t, ∀ c ∈ l, isLineBreak c = false := by
  fun_induction recordLines t with
  | case1 => nofun
  | case2 cs ih => exact List.forall_mem_cons.mpr ⟨nofun, ih⟩
  | case3 c cs hne hb ih => exact List.forall_mem_cons.mpr ⟨nofun, ih⟩
  | case4 c cs hne hb ih => exact isLineBreak_of_mem_consLine (by simpa using hb) ih

theorem length_ended (ls : List Text) :
    (ls.flatMap (· ++ ['\n'])).length = ls.flatten.length + ls.length := by
  induction ls with
  | nil => rfl
  | cons l ls ih =>
    rw [List.flatMap_cons, List.flatten_cons, List.length_append, List.length_append,
      List.length_append, ih, List.length_cons]
    simp only [List.length_cons, List.length_nil]
    omega

theorem countP_ended (ls : List Text) :
    (ls.flatMap (· ++ ['\n'])).countP isLineBreak = ls.flatten.countP isLineBreak + ls.length := by
  have hn : [ '\n' ].countP isLineBreak = 1 := by decide
  induction ls with
  | nil => rfl
  | cons l ls ih =>
    rw [List.flatMap_cons, List.flatten_cons, List.countP_append, List.countP_append,
      List.countP_append, ih, List.length_cons, hn]
    omega

theorem sum_consLine (c : Char) (ls : List Text) :
    ((consLine c ls).map List.length).sum = (ls.map List.length).sum + 1 := by
  cases ls with
  | nil => rfl
  | cons l ls =>
    simp only [consLine, List.map_cons, List.sum_cons, List.length_cons]
    omega

/-- Every character is in a line or is a line break. -/
theorem sum_recordLines (t : Text) :
    ((recordLines t).map List.length).sum + t.countP isLineBreak = t.length := by
  fun_induction recordLines t with
  | case1 => rfl
  | case2 cs ih =>
    have hr : isLineBreak '\r' = true := by decide
    have hn : isLineBreak '\n' = true := by decide
    rw [List.countP_cons_of_pos hr, List.countP_cons_of_pos hn, List.map_cons, List.sum_cons,
      List.length_cons, List.length_cons, List.length_nil]
    omega
  | case3 c cs hne hb ih =>
    rw [List.countP_cons_of_pos hb, List.map_cons, List.sum_cons, List.length_cons, List.length_nil]
    omega
  | case4 c cs hne hb ih =>
    rw [List.countP_cons_of_neg hb, sum_consLine, List.length_cons]
    omega

end Text

/-! ## Records -/

namespace Object

/-- Numbers that the six digits of an address or a length can hold. -/
def FitsField (n : Int) : Prop := 0 ≤ n ∧ n < 16 ^ 6

theorem fitsField_natCast {n : Nat} : FitsField n ↔ n < 16 ^ 6 := by
  unfold FitsField
  omega

/-- A number that a width can hold is written as a field of that width. -/
theorem isField_signed (width : Nat) {n : Int} (hw : 0 < width) (h : 0 ≤ n ∧ n < 16 ^ width) :
    Hex.IsField width (Hex.signed width n) ∧ (Hex.value (Hex.signed width n) : Int) = n := by
  obtain ⟨m, rfl⟩ := Int.eq_ofNat_of_zero_le h.1
  have hm : m < 16 ^ width := by exact_mod_cast h.2
  have hread := Hex.read?_eq_some_iff.mp (Hex.read?_padded width m)
  rw [Hex.signed_natCast, ← hread.2.2]
  refine ⟨⟨?_, hread.2.1⟩, rfl⟩
  rw [Hex.length_padded]
  exact Nat.max_eq_left ((Hex.length_le_iff hw).mpr hm)

theorem fitsField_value {t : Text} (h : Hex.IsField 6 t) : FitsField (Hex.value t) := by
  have hlt := Hex.value_lt h.2
  rw [h.1] at hlt
  exact fitsField_natCast.mpr hlt

end Object

theorem Text.trimEnd_rightpad (t : Text) (n : Nat) : trimEnd (t.rightpad n ' ') = trimEnd t := by
  unfold trimEnd dropEndWhile List.rightpad
  rw [List.reverse_append, List.dropWhile_append_of_pos]
  intro c hc
  rw [List.mem_reverse] at hc
  rw [List.eq_of_mem_replicate hc]
  decide

namespace Object

/-- A header as it is read back: the name is cut to its field, with no blanks at its end. -/
def Header.trimmed (h : Header) : Header := { h with name := Text.trimEnd (h.name.take nameWidth) }

theorem Header.spelled_write {h : Header} (hl : FitsField h.load) (hn : FitsField h.length) :
    Spelled h.write.dropLast h.trimmed := by
  obtain ⟨hload, hloadValue⟩ := isField_signed 6 (by decide) hl
  obtain ⟨hlength, hlengthValue⟩ := isField_signed 6 (by decide) hn
  have hname : ((h.name.take nameWidth).rightpad nameWidth ' ').length = 6 := by
    have hw : nameWidth = 6 := rfl
    rw [List.length_rightpad, List.length_take]
    omega
  have hline : h.write.dropLast = 'H' :: ((h.name.take nameWidth).rightpad nameWidth ' ' ++
      (Hex.signed addressWidth h.load ++ Hex.signed addressWidth h.length)) := by
    unfold write
    rw [List.dropLast_concat, List.cons_append, List.cons_append, List.append_assoc]
  have hspelled := Spelled.intro hname hload hlength
  rw [hloadValue, hlengthValue, Text.trimEnd_rightpad] at hspelled
  rw [hline]
  exact hspelled

theorem TextRecord.spelled_write {r : TextRecord} (he : r.code.length % 2 = 0)
    (hd : ∀ c ∈ r.code, Hex.isDigit c = true) : Spelled r.write.dropLast r := by
  have hline : r.write.dropLast = 'T' :: r.code := List.dropLast_concat
  rw [hline]
  exact .intro he fun c hc => Hex.isDigit_iff.mp (hd c hc)

theorem Modification.spelled_write {m : Modification} (hs : FitsField m.start)
    (hh : 0 ≤ m.halfBytes ∧ m.halfBytes < 16 ^ 2) (hne : m.symbol ≠ []) :
    Spelled m.write.dropLast m := by
  obtain ⟨hstart, hstartValue⟩ := isField_signed 6 (by decide) hs
  obtain ⟨hhalf, hhalfValue⟩ := isField_signed 2 (by decide) hh
  have hline : m.write.dropLast = 'M' :: (Hex.signed addressWidth m.start ++
      (Hex.signed 2 m.halfBytes ++ '+' :: m.symbol)) := by
    unfold write
    rw [List.dropLast_concat, List.cons_append, List.cons_append, List.append_assoc]
  have hspelled := Spelled.intro hstart hhalf hne
  rw [hstartValue, hhalfValue] at hspelled
  rw [hline]
  exact hspelled

theorem EndRecord.spelled_write {e : EndRecord} (he : FitsField e.entry) :
    Spelled e.write.dropLast e := by
  obtain ⟨hentry, hvalue⟩ := isField_signed 6 (by decide) he
  have hline : e.write.dropLast = 'E' :: Hex.signed addressWidth e.entry := List.dropLast_concat
  have hspelled := Spelled.intro hentry
  rw [hvalue] at hspelled
  rw [hline]
  exact hspelled

/-! ### Lengths of lines -/

theorem Header.Spelled.length {line : Text} {h : Header} :
    Spelled line h → line.length = 19 ∧ FitsField h.length
  | intro hname hload hlength => by
    refine ⟨?_, fitsField_value hlength⟩
    rw [List.length_cons, List.length_append, List.length_append, hname, hload.1, hlength.1]

theorem TextRecord.Spelled.length {line : Text} {r : TextRecord} :
    Spelled line r → line.length = r.code.length + 1
  | intro _ _ => rfl

theorem Modification.Spelled.length {line : Text} {m : Modification} :
    Spelled line m → line.length = m.symbol.length + 10
  | @intro _ _ symbol hstart hhalf _ => by
    show _ = symbol.length + 10
    rw [List.length_cons, List.length_append, List.length_append, hstart.1, hhalf.1,
      List.length_cons]
    omega

theorem EndRecord.Spelled.length {line : Text} {e : EndRecord} :
    Spelled line e → line.length = 7
  | intro hentry => by rw [List.length_cons, hentry.1]

/-! ### Line breaks in records -/

theorem isLineBreak_of_mem_signed {w : Nat} {n : Int} {c : Char} (h : c ∈ Hex.signed w n) :
    Text.isLineBreak c = false := by
  unfold Hex.signed at h
  split at h
  · rcases List.mem_cons.mp h with rfl | h
    · decide
    · exact Text.isLineBreak_of_isDigit (Hex.isDigit_of_mem_padded h)
  · exact Text.isLineBreak_of_isDigit (Hex.isDigit_of_mem_padded h)

theorem Header.unbroken_iff (h : Header) :
    (∀ c ∈ h.write.dropLast, Text.isLineBreak c = false) ↔
      ∀ c ∈ h.name.take nameWidth, Text.isLineBreak c = false := by
  have hline : h.write.dropLast = 'H' :: (h.name.take nameWidth).rightpad nameWidth ' ' ++
      Hex.signed addressWidth h.load ++ Hex.signed addressWidth h.length := List.dropLast_concat
  rw [hline]
  constructor
  · intro hu c hc
    refine hu c (List.mem_append_left _ (List.mem_append_left _ (.tail _ ?_)))
    exact List.mem_append_left _ hc
  · intro hn c hc
    rcases List.mem_append.mp hc with hc | hc
    · rcases List.mem_append.mp hc with hc | hc
      · rcases List.mem_cons.mp hc with rfl | hc
        · decide
        · rcases List.mem_append.mp hc with hc | hc
          · exact hn c hc
          · rw [List.eq_of_mem_replicate hc]
            decide
      · exact isLineBreak_of_mem_signed hc
    · exact isLineBreak_of_mem_signed hc

theorem TextRecord.unbroken {r : TextRecord} (h : ∀ c ∈ r.code, Hex.isDigit c = true) :
    ∀ c ∈ r.write.dropLast, Text.isLineBreak c = false := by
  have hline : r.write.dropLast = 'T' :: r.code := List.dropLast_concat
  rw [hline, List.forall_mem_cons]
  exact ⟨by decide, fun c hc => Text.isLineBreak_of_isDigit (h c hc)⟩

theorem Modification.unbroken_iff (m : Modification) :
    (∀ c ∈ m.write.dropLast, Text.isLineBreak c = false) ↔
      ∀ c ∈ m.symbol, Text.isLineBreak c = false := by
  have hline : m.write.dropLast = 'M' :: Hex.signed addressWidth m.start ++
      Hex.signed 2 m.halfBytes ++ '+' :: m.symbol := List.dropLast_concat
  rw [hline]
  constructor
  · intro hu c hc
    exact hu c (List.mem_append_right _ (.tail _ hc))
  · intro hs c hc
    rcases List.mem_append.mp hc with hc | hc
    · rcases List.mem_append.mp hc with hc | hc
      · rcases List.mem_cons.mp hc with rfl | hc
        · decide
        · exact isLineBreak_of_mem_signed hc
      · exact isLineBreak_of_mem_signed hc
    · rcases List.mem_cons.mp hc with rfl | hc
      · decide
      · exact hs c hc

theorem EndRecord.unbroken (e : EndRecord) :
    ∀ c ∈ e.write.dropLast, Text.isLineBreak c = false := by
  have hline : e.write.dropLast = 'E' :: Hex.signed addressWidth e.entry := List.dropLast_concat
  rw [hline, List.forall_mem_cons]
  exact ⟨by decide, fun c hc => isLineBreak_of_mem_signed hc⟩

end Object

/-! ## Files -/

namespace ObjectProgram

/-- The records of a program without their newlines. -/
def lines (p : ObjectProgram) : List Text := p.records.map List.dropLast

theorem render_eq_lines (p : ObjectProgram) : p.render = p.lines.flatMap (· ++ ['\n']) := by
  have hended : ∀ r ∈ p.records, r.dropLast ++ ['\n'] = r := by
    intro r hr
    simp only [records, List.mem_append, List.mem_map] at hr
    rcases hr with ((⟨h, -, rfl⟩ | ⟨t, -, rfl⟩) | ⟨m, -, rfl⟩) | ⟨e, -, rfl⟩
    all_goals
      exact congrArg (· ++ ['\n']) List.dropLast_concat
  unfold render lines
  rw [List.flatMap_map, List.flatMap_def, List.map_congr_left hended, List.map_id']

theorem lines_ne_nil {p : ObjectProgram} {l : Text} (h : l ∈ p.lines) : l ≠ [] := by
  obtain ⟨r, hr, rfl⟩ := List.mem_map.mp h
  simp only [records, List.mem_append, List.mem_map] at hr
  rcases hr with ((⟨h, -, rfl⟩ | ⟨t, -, rfl⟩) | ⟨m, -, rfl⟩) | ⟨e, -, rfl⟩
  all_goals
    intro hnil
    exact List.cons_ne_nil _ _ (List.dropLast_concat.symm.trans hnil)

/-- The characters of the lines that records are read from. -/
def extent (p : ObjectProgram) : Nat :=
  19 * p.header.toList.length + (p.text.map fun r => r.code.length + 1).sum +
    (p.modifications.map fun m => m.symbol.length + 10).sum + 7 * p.finish.toList.length

end ObjectProgram

namespace ObjectFile

/-- Files whose fields keep to their widths, the length apart. -/
structure WellFormed (f : ObjectFile) : Prop where
  load : FitsField f.header.load
  text : ∀ r ∈ f.text, r.code.length % 2 = 0 ∧ ∀ c ∈ r.code, Hex.isDigit c = true
  modifications : ∀ m ∈ f.modifications,
    FitsField m.start ∧ m.halfBytes = addressHalfBytes ∧ m.symbol ≠ []
  entry : FitsField f.finish.entry

/-- A file as it is read back. -/
def trimmed (f : ObjectFile) : ObjectFile := { f with header := f.header.trimmed }

theorem lines_program (f : ObjectFile) : f.program.lines =
    f.header.write.dropLast :: (f.text.map (fun r => r.write.dropLast) ++
      (f.modifications.map (fun m => m.write.dropLast) ++ [f.finish.write.dropLast])) := by
  simp [program, ObjectProgram.lines, ObjectProgram.records, Function.comp_def]

/-- The records of a file that keep to the widths of their fields follow the grammar. -/
theorem spelled_lines {f : ObjectFile} (hload : FitsField f.header.load)
    (hlength : FitsField f.header.length)
    (htext : ∀ r ∈ f.text, r.code.length % 2 = 0 ∧ ∀ c ∈ r.code, Hex.isDigit c = true)
    (hmodifications : ∀ m ∈ f.modifications,
      FitsField m.start ∧ (0 ≤ m.halfBytes ∧ m.halfBytes < 16 ^ 2) ∧ m.symbol ≠ [])
    (hentry : FitsField f.finish.entry) : f.trimmed.Spelled f.program.lines := by
  rw [lines_program]
  refine .intro (Header.spelled_write hload hlength) ?_ ?_ (EndRecord.spelled_write hentry)
  · refine List.forall₂_map_left_iff.mpr (List.forall₂_same.mpr fun r hr => ?_)
    exact TextRecord.spelled_write (htext r hr).1 (htext r hr).2
  · refine List.forall₂_map_left_iff.mpr (List.forall₂_same.mpr fun m hm => ?_)
    obtain ⟨hs, hh, hne⟩ := hmodifications m hm
    exact Modification.spelled_write hs hh hne

theorem WellFormed.spelled_lines {f : ObjectFile} (hf : f.WellFormed)
    (hlength : FitsField f.header.length) : f.trimmed.Spelled f.program.lines := by
  refine ObjectFile.spelled_lines hf.load hlength hf.text (fun m hm => ?_) hf.entry
  obtain ⟨hs, hh, hne⟩ := hf.modifications m hm
  rw [hh]
  exact ⟨hs, by decide, hne⟩

theorem sum_lengths {α : Type} {R : Text → α → Prop} {lines : List Text} {xs : List α}
    {length : α → Nat} (h : List.Forall₂ R lines xs)
    (hlength : ∀ {line x}, R line x → line.length = length x) :
    (lines.map List.length).sum = (xs.map length).sum := by
  induction h with
  | nil => rfl
  | cons hline _ ih =>
    rw [List.map_cons, List.sum_cons, List.map_cons, List.sum_cons, hlength hline, ih]

/-- A file accounts for the characters of its lines. -/
theorem Spelled.extent {lines : List Text} {f : ObjectFile} (h : f.Spelled lines) :
    f.program.extent = (lines.map List.length).sum ∧ FitsField f.header.length := by
  obtain ⟨hheader, htext, hmodifications, hfinish⟩ := h
  refine ⟨?_, hheader.length.2⟩
  rw [List.map_cons, List.map_append, List.map_append, List.sum_cons, List.sum_append,
    List.sum_append, hheader.length.1, sum_lengths htext TextRecord.Spelled.length,
    sum_lengths hmodifications Modification.Spelled.length, List.map_singleton,
    List.sum_singleton, hfinish.length]
  simp only [program, ObjectProgram.extent, Option.toList_some, List.length_singleton]
  omega

theorem sum_filled (t : Text) :
    ((filled t).map List.length).sum = ((Text.recordLines t).map List.length).sum := by
  unfold filled
  induction Text.recordLines t with
  | nil => rfl
  | cons l ls ih =>
    cases l with
    | nil =>
      rw [List.filter_cons_of_neg (by simp), ih, List.map_cons, List.sum_cons, List.length_nil,
        Nat.zero_add]
    | cons c cs =>
      rw [List.filter_cons_of_pos (by simp), List.map_cons, List.sum_cons, ih, List.map_cons,
        List.sum_cons]

/-- A file that is read accounts for all characters but the line breaks. -/
theorem parse_ok {t : Text} {f : ObjectFile} (h : parse t = .ok f) :
    f.program.extent + t.countP Text.isLineBreak = t.length ∧ FitsField f.header.length := by
  obtain ⟨hextent, hfield⟩ := (parse_eq_ok_iff.mp h).extent
  exact ⟨by rw [hextent, sum_filled, Text.sum_recordLines], hfield⟩

/-- Only the name and the symbols can hold a line break. -/
theorem lines_unbroken_iff {f : ObjectFile}
    (htext : ∀ r ∈ f.text, ∀ c ∈ r.code, Hex.isDigit c = true) :
    (∀ l ∈ f.program.lines, ∀ c ∈ l, Text.isLineBreak c = false) ↔
      (∀ c ∈ f.header.name.take nameWidth, Text.isLineBreak c = false) ∧
      ∀ m ∈ f.modifications, ∀ c ∈ m.symbol, Text.isLineBreak c = false := by
  rw [lines_program, List.forall_mem_cons, Header.unbroken_iff]
  refine and_congr_right fun _ => ?_
  constructor
  · intro h m hm
    refine (Modification.unbroken_iff m).mp (h _ ?_)
    exact List.mem_append_right _ (List.mem_append_left _ (List.mem_map_of_mem hm))
  · intro h l hl
    rcases List.mem_append.mp hl with hl | hl
    · obtain ⟨t, ht, rfl⟩ := List.mem_map.mp hl
      exact TextRecord.unbroken (htext t ht)
    · rcases List.mem_append.mp hl with hl | hl
      · obtain ⟨m, hm, rfl⟩ := List.mem_map.mp hl
        exact (Modification.unbroken_iff m).mpr (h m hm)
      · rw [List.mem_singleton.mp hl]
        exact EndRecord.unbroken f.finish

/-- Lines that follow the grammar and hold no line break are read back from the text of them. -/
theorem parse_render {f f' : ObjectFile} (hspelled : f'.Spelled f.program.lines)
    (hunbroken : ∀ l ∈ f.program.lines, ∀ c ∈ l, Text.isLineBreak c = false) :
    parse f.program.render = .ok f' := by
  have hfilled : filled f.program.render = f.program.lines := by
    unfold filled
    rw [ObjectProgram.render_eq_lines, Text.recordLines_ended hunbroken, List.filter_eq_self]
    intro l hl
    simpa using ObjectProgram.lines_ne_nil hl
  rw [parse_eq_ok_iff, hfilled]
  exact hspelled

/-- A file whose fields hold, the length apart, is read back exactly if its length fits as well and
    no line break is in its name, as far as it is written, or in a symbol. -/
theorem parse_render_iff {f : ObjectFile} (hf : f.WellFormed) :
    parse f.program.render = .ok f.trimmed ↔ FitsField f.header.length ∧
      (∀ c ∈ f.header.name.take nameWidth, Text.isLineBreak c = false) ∧
      ∀ m ∈ f.modifications, ∀ c ∈ m.symbol, Text.isLineBreak c = false := by
  rw [← lines_unbroken_iff fun r hr => (hf.text r hr).2]
  constructor
  · intro h
    obtain ⟨hcount, hfield⟩ := parse_ok h
    refine ⟨hfield, ?_⟩
    -- What is read has as many characters as the lines have, so there is no break but their ends.
    have hextent : f.trimmed.program.extent = (f.program.lines.map List.length).sum :=
      (hf.spelled_lines hfield).extent.1
    rw [ObjectProgram.render_eq_lines, Text.countP_ended, Text.length_ended, List.length_flatten,
      hextent] at hcount
    have hnone : f.program.lines.flatten.countP Text.isLineBreak = 0 := by omega
    intro l hl c hc
    have := List.countP_eq_zero.mp hnone c (List.mem_flatten.mpr ⟨l, hl, hc⟩)
    simpa using this
  · rintro ⟨hfield, hunbroken⟩
    exact parse_render (hf.spelled_lines hfield) hunbroken

end ObjectFile

/-! ## Object code -/

/-- Only the last character is dropped if no other is of the kind. -/
theorem Text.dropEndWhile_concat {p : Char → Bool} {t : Text} {c : Char} (hc : p c = true)
    (ht : ∀ x ∈ t, p x = false) : dropEndWhile p (t ++ [c]) = t := by
  have hrest : t.reverse.dropWhile p = t.reverse := by
    cases hr : t.reverse with
    | nil => rfl
    | cons x xs =>
      have hx : p x = false := ht x (List.mem_reverse.mp (by rw [hr]; exact List.mem_cons_self))
      rw [List.dropWhile_cons_of_neg (by rw [hx]; decide)]
  unfold dropEndWhile
  rw [List.reverse_append, List.reverse_singleton, List.singleton_append,
    List.dropWhile_cons_of_pos hc, hrest, List.reverse_reverse]

namespace ObjectProgram

/-- The bytes of a text record whose code is whole bytes. -/
theorem recordBytes_digits {r : TextRecord} (he : r.code.length % 2 = 0)
    (hd : ∀ c ∈ r.code, Hex.isDigit c = true) : recordBytes r = .ok (Hex.decoded r.code) := by
  have hline : Text.dropEndWhile (· == '\n') r.write = r.write.dropLast := by
    have hlast : r.write.dropLast = 'T' :: r.code := List.dropLast_concat
    rw [hlast]
    refine Text.dropEndWhile_concat (t := 'T' :: r.code) rfl fun c hc => ?_
    have hbreak : Text.isLineBreak c = false := TextRecord.unbroken hd c (by rw [hlast]; exact hc)
    rw [beq_eq_false_iff_ne]
    rintro rfl
    revert hbreak
    decide
  unfold recordBytes
  rw [hline, TextRecord.read_eq_ok_iff.mpr (TextRecord.spelled_write he hd)]
  simp only [TextRecord.bytes, Hex.bytes_digits he hd]
  rfl

/-- The object code of text records that are whole bytes is what they denote. -/
theorem objectCode_decoded {p : ObjectProgram}
    (h : ∀ r ∈ p.text, r.code.length % 2 = 0 ∧ ∀ c ∈ r.code, Hex.isDigit c = true) :
    p.objectCode = .ok (p.text.flatMap fun r => Hex.decoded r.code) := by
  unfold objectCode
  rw [mapM_eq_ok fun r hr => recordBytes_digits (h r hr).1 (h r hr).2]
  rfl

/-- The object code of text records that are whole bytes: a byte for each pair of digits. -/
theorem objectCode_digits {p : ObjectProgram}
    (h : ∀ r ∈ p.text, r.code.length % 2 = 0 ∧ ∀ c ∈ r.code, Hex.isDigit c = true) :
    ∃ bs, p.objectCode = .ok bs ∧ (p.text.map fun r => r.code.length).sum = 2 * bs.length := by
  refine ⟨_, objectCode_decoded h, ?_⟩
  have hlengths : (p.text.map fun r => r.code.length) =
      p.text.map fun r => 2 * (Hex.decoded r.code).length :=
    List.map_congr_left fun r hr => Hex.length_decoded (h r hr).1
  rw [List.length_flatMap, hlengths, List.sum_map_mul_left]

end ObjectProgram

end TwoPass
