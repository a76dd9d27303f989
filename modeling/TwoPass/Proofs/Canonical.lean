import Mathlib.Data.List.DropRight
import TwoPass.Proofs.Building

/-
  Object files that are read and written again. The digits of a number come back in upper case and
  the blanks behind a name as spaces, all other characters as they were. So a line that is read
  comes back as it was exactly if its digits are in upper case and its name ends in spaces (`Tidy`;
  a lemma for each kind of record). A file comes back as the same records, and as the same text
  exactly if all its lines are tidy, none is empty, and a newline ends each of them
  (`parse_rebuilt`).
-/

namespace TwoPass

open Object

/-! ## Fields -/

theorem Text.trimEnd_append_blanks (t : Text) : trimEnd t ++ t.rtakeWhile isBlank = t :=
  List.rdropWhile_append_rtakeWhile

theorem Text.length_trimEnd_le (t : Text) : (trimEnd t).length ≤ t.length :=
  (List.rdropWhile_prefix isBlank t).length_le

/-- A text that is cut and padded to its length is the same if only spaces were cut. -/
theorem Text.rightpad_trimEnd_eq_iff (t : Text) :
    (trimEnd t).rightpad t.length ' ' = t ↔ ∀ c ∈ t.rtakeWhile isBlank, c = ' ' := by
  have hsplit := trimEnd_append_blanks t
  have hlen : t.length - (trimEnd t).length = (t.rtakeWhile isBlank).length := by
    have := congrArg List.length hsplit
    rw [List.length_append] at this
    omega
  unfold List.rightpad
  rw [hlen]
  nth_rewrite 3 [← hsplit]
  rw [List.append_cancel_left_eq, eq_comm, List.eq_replicate_iff]
  exact and_iff_right rfl

/-- A field that is read and written again is in upper case. -/
theorem Hex.signed_value {w : Nat} {t : Text} (hw : 0 < w) (h : IsField w t) :
    signed w (value t : Int) = t.map Char.toUpper := by
  have hne : t ≠ [] := by
    rintro rfl
    exact absurd h.1 (Nat.ne_of_lt hw)
  rw [signed_natCast, ← h.1, padded_value hne h.2]

namespace Object

/-- The digits of a line that stand for numbers. -/
def fieldDigits : Text → Text
  | 'H' :: body => body.drop nameWidth
  | 'M' :: body => body.take (addressWidth + 2)
  | 'E' :: body => body
  | _ => []

/-- The blanks at the end of the name in a header. -/
def nameBlanks : Text → Text
  | 'H' :: body => (body.take nameWidth).rtakeWhile Text.isBlank
  | _ => []

/-- Lines with their digits in upper case and only spaces behind a name. -/
structure Tidy (line : Text) : Prop where
  digits : (fieldDigits line).map Char.toUpper = fieldDigits line
  blanks : ∀ c ∈ nameBlanks line, c = ' '

theorem tidy_iff {line : Text} : Tidy line ↔
    (∀ c ∈ nameBlanks line, c = ' ') ∧
      (fieldDigits line).map Char.toUpper = fieldDigits line :=
  ⟨fun h => ⟨h.blanks, h.digits⟩, fun h => ⟨h.2, h.1⟩⟩

instance : DecidablePred Tidy := fun line =>
  haveI := List.decidableBAll (· = ' ') (nameBlanks line)
  decidable_of_iff' _ tidy_iff

/-! ## Records -/

section Records

variable {line : Text}

theorem Header.Spelled.length_name {h : Header} : Spelled line h → h.name.length ≤ nameWidth
  | @intro name _ _ hname _ _ => by
    have hle := Text.length_trimEnd_le name
    rwa [hname] at hle

theorem Header.Spelled.trimmed_eq {h : Header} (hh : Spelled line h) : h.trimmed = h := by
  unfold trimmed
  rw [List.take_of_length_le hh.length_name]
  obtain ⟨-, -, -⟩ := hh
  rename_i name _ _
  exact congrArg (Header.mk · _ _) (List.rdropWhile_idempotent Text.isBlank name)

/-- A header comes back as it was if its fields are tidy. -/
theorem Header.Spelled.write_eq_iff {h : Header} (hh : Spelled line h) :
    h.write.dropLast = line ↔ Tidy line := by
  have hcut := hh.length_name
  obtain ⟨hname, hload, hlength⟩ := hh
  rename_i name load length
  have hdigits : fieldDigits ('H' :: (name ++ (load ++ length))) = load ++ length :=
    List.drop_left' hname
  have hblanks : nameBlanks ('H' :: (name ++ (load ++ length))) = name.rtakeWhile Text.isBlank :=
    congrArg (List.rtakeWhile Text.isBlank) (List.take_left' hname)
  have hpad : ((Text.trimEnd name).rightpad name.length ' ').length = name.length := by
    rw [List.length_rightpad]
    exact Nat.max_eq_left (Text.length_trimEnd_le name)
  have hline : Header.write
      { name := Text.trimEnd name, load := Hex.value load, length := Hex.value length } =
      'H' :: ((Text.trimEnd name).rightpad name.length ' ' ++ (load ++ length).map Char.toUpper) ++
        ['\n'] := by
    unfold write
    rw [List.take_of_length_le hcut, List.map_append, ← Hex.signed_value (by decide) hload,
      ← Hex.signed_value (by decide) hlength, ← List.append_assoc, hname]
    rfl
  rw [hline, List.dropLast_concat, List.cons_inj_right,
    List.append_eq_append_iff_of_size_eq_left hpad, Text.rightpad_trimEnd_eq_iff, tidy_iff, hdigits,
    hblanks]

/-- A text record always comes back as it was. -/
theorem TextRecord.Spelled.write_eq_iff {r : TextRecord} (hr : Spelled line r) :
    r.write.dropLast = line ↔ Tidy line := by
  obtain ⟨-, -⟩ := hr
  exact ⟨fun _ => ⟨rfl, nofun⟩, fun _ => List.dropLast_concat⟩

/-- A modification record comes back as it was if its digits are tidy. -/
theorem Modification.Spelled.write_eq_iff {m : Modification} (hm : Spelled line m) :
    m.write.dropLast = line ↔ Tidy line := by
  obtain ⟨hstart, hhalf, -⟩ := hm
  rename_i start halfBytes symbol
  have hlen : (start ++ halfBytes).length = addressWidth + 2 := by
    rw [List.length_append, hstart.1, hhalf.1]
    rfl
  have hdigits : fieldDigits ('M' :: (start ++ halfBytes ++ '+' :: symbol)) = start ++ halfBytes :=
    List.take_left' hlen
  have hline : Modification.write
      { start := Hex.value start, halfBytes := Hex.value halfBytes, symbol } =
      'M' :: ((start ++ halfBytes).map Char.toUpper ++ '+' :: symbol) ++ ['\n'] := by
    unfold write
    rw [List.map_append, ← Hex.signed_value (by decide) hstart,
      ← Hex.signed_value (by decide) hhalf]
    rfl
  rw [hline, List.dropLast_concat, ← List.append_assoc, List.cons_inj_right,
    List.append_cancel_right_eq, tidy_iff, hdigits]
  exact (and_iff_right nofun).symm

/-- An end record comes back as it was if its digits are tidy. -/
theorem EndRecord.Spelled.write_eq_iff {e : EndRecord} (he : Spelled line e) :
    e.write.dropLast = line ↔ Tidy line := by
  obtain ⟨hentry⟩ := he
  rename_i entry
  have hline : EndRecord.write { entry := Hex.value entry } =
      'E' :: entry.map Char.toUpper ++ ['\n'] := by
    rw [← Hex.signed_value (by decide) hentry]
    rfl
  rw [hline, List.dropLast_concat, List.cons_inj_right, tidy_iff]
  exact (and_iff_right nofun).symm

/-! ### Fields that were read -/

theorem Header.Spelled.fits {h : Header} : Spelled line h → FitsField h.load ∧ FitsField h.length
  | intro _ hload hlength => ⟨fitsField_value hload, fitsField_value hlength⟩

theorem Header.Spelled.name_subset {h : Header} : Spelled line h → h.name ⊆ line
  | @intro name _ _ _ _ _ => by
    have hsub : Text.trimEnd name ⊆ name := (List.rdropWhile_prefix Text.isBlank name).subset
    exact fun c hc => .tail _ (List.mem_append_left _ (hsub hc))

theorem TextRecord.Spelled.digits {r : TextRecord} : Spelled line r →
    r.code.length % 2 = 0 ∧ ∀ c ∈ r.code, Hex.isDigit c = true
  | intro heven hcode => ⟨heven, fun c hc => Hex.isDigit_iff.mpr (hcode c hc)⟩

theorem Modification.Spelled.fits {m : Modification} : Spelled line m →
    FitsField m.start ∧ (0 ≤ m.halfBytes ∧ m.halfBytes < 16 ^ 2) ∧ m.symbol ≠ []
  | @intro _ halfBytes _ hstart hhalf hsymbol => by
    have hlt := Hex.value_lt hhalf.2
    rw [hhalf.1] at hlt
    have hfits : 0 ≤ (Hex.value halfBytes : Int) ∧ (Hex.value halfBytes : Int) < 16 ^ 2 := by omega
    exact ⟨fitsField_value hstart, hfits, hsymbol⟩

theorem Modification.Spelled.symbol_subset {m : Modification} : Spelled line m → m.symbol ⊆ line
  | intro _ _ _ => fun _ hc =>
    .tail _ (List.mem_append_right _ (List.mem_append_right _ (.tail _ hc)))

theorem EndRecord.Spelled.fits {e : EndRecord} : Spelled line e → FitsField e.entry
  | intro hentry => fitsField_value hentry

end Records

end Object

/-! ## Files -/

namespace ObjectFile

variable {t : Text} {f : ObjectFile} {lines : List Text}

/-- Records of one kind come back as they were if their lines are tidy. -/
theorem section_eq_iff {α : Type} {R : Text → α → Prop} {xs : List α} (write : α → Text)
    (hwrite : ∀ {line x}, R line x → (write x = line ↔ Tidy line)) (h : List.Forall₂ R lines xs) :
    xs.map write = lines ↔ ∀ l ∈ lines, Tidy l := by
  induction h with
  | nil => exact ⟨fun _ => nofun, fun _ => rfl⟩
  | cons hline _ ih =>
    rw [List.map_cons, List.cons.injEq, hwrite hline, ih, List.forall_mem_cons]

/-- The lines of a file come back as they were if they are tidy. -/
theorem Spelled.lines_eq_iff (h : f.Spelled lines) :
    f.program.lines = lines ↔ ∀ l ∈ lines, Tidy l := by
  obtain ⟨hheader, htext, hmodifications, hfinish⟩ := h
  rename_i header finish text modifications
  have htexts : (f.text.map fun r => r.write.dropLast).length = text.length := by
    rw [List.length_map, htext.length_eq]
  have hmods : (f.modifications.map fun m => m.write.dropLast).length = modifications.length := by
    rw [List.length_map, hmodifications.length_eq]
  rw [lines_program, List.cons.injEq, List.append_eq_append_iff_of_size_eq_left htexts,
    List.append_eq_append_iff_of_size_eq_left hmods, List.singleton_inj, hheader.write_eq_iff,
    section_eq_iff (fun r => r.write.dropLast) TextRecord.Spelled.write_eq_iff htext,
    section_eq_iff (fun m => m.write.dropLast) Modification.Spelled.write_eq_iff hmodifications,
    hfinish.write_eq_iff, List.forall_mem_cons, List.forall_mem_append, List.forall_mem_append,
    List.forall_mem_singleton]

/-- The lines of a file that was read, written again, are lines of the same file. -/
theorem Spelled.rewrite (h : f.Spelled lines) : f.Spelled f.program.lines := by
  obtain ⟨hheader, htext, hmodifications, hfinish⟩ := h
  have htrimmed : f.trimmed = f := congrArg (fun h => { f with header := h }) hheader.trimmed_eq
  have hspelled : f.trimmed.Spelled f.program.lines := by
    refine spelled_lines hheader.fits.1 hheader.fits.2 (fun r hr => ?_) (fun m hm => ?_)
      hfinish.fits
    · obtain ⟨line, -, hline⟩ := exists_line htext hr
      exact hline.digits
    · obtain ⟨line, -, hline⟩ := exists_line hmodifications hm
      exact hline.fits
  rwa [htrimmed] at hspelled

/-- Lines without a line break have none when they are written again. -/
theorem Spelled.unbroken (h : f.Spelled lines)
    (hbreak : ∀ l ∈ lines, ∀ c ∈ l, Text.isLineBreak c = false) :
    ∀ l ∈ f.program.lines, ∀ c ∈ l, Text.isLineBreak c = false := by
  obtain ⟨hheader, htext, hmodifications, -⟩ := h
  refine (lines_unbroken_iff fun r hr => ?_).mpr ⟨fun c hc => ?_, fun m hm c hc => ?_⟩
  · obtain ⟨line, -, hline⟩ := exists_line htext hr
    exact hline.digits.2
  · exact hbreak _ List.mem_cons_self c (hheader.name_subset (List.mem_of_mem_take hc))
  · obtain ⟨line, hl, hline⟩ := exists_line hmodifications hm
    refine hbreak line (.tail _ ?_) c (hline.symbol_subset hc)
    exact List.mem_append_right _ (List.mem_append_left _ hl)

theorem unbroken_of_parse (h : parse t = .ok f) :
    ∀ l ∈ f.program.lines, ∀ c ∈ l, Text.isLineBreak c = false := by
  refine (parse_eq_ok_iff.mp h).unbroken fun l hl => ?_
  exact Text.isLineBreak_of_mem_recordLines t l (List.mem_of_mem_filter hl)

theorem filled_eq (h : ∀ l ∈ Text.recordLines t, l ≠ []) : filled t = Text.recordLines t :=
  List.filter_eq_self.mpr fun l hl => by simpa using h l hl

/-- Texts whose lines are tidy and not empty, with a newline at the end of each. -/
structure Canonical (t : Text) : Prop where
  ended : (Text.recordLines t).flatMap (· ++ ['\n']) = t
  filled : ∀ l ∈ Text.recordLines t, l ≠ []
  tidy : ∀ l ∈ Text.recordLines t, Tidy l

/-- Calls that put the fields of a file into a program, in any order. -/
structure Feeds (f : ObjectFile) (calls : List ObjectProgram.Call) : Prop where
  header : calls.flatMap ObjectProgram.Call.headers = [f.header]
  text : calls.flatMap ObjectProgram.Call.texts = f.text
  modifications : calls.flatMap ObjectProgram.Call.modifications = f.modifications
  finish : calls.flatMap ObjectProgram.Call.ends = [f.finish]

/-- The fields of a file, one after the other. -/
def calls (f : ObjectFile) : List ObjectProgram.Call :=
  .setHeader f.header :: f.text.map (fun r => .addText r.code) ++
    [.addModifications f.modifications, .setEnd f.finish.entry]

theorem feeds_calls (f : ObjectFile) : f.Feeds f.calls := by
  have hnone : ∀ {α : Type} (ts : List TextRecord), ts.flatMap (fun _ => ([] : List α)) = [] :=
    fun ts => List.flatMap_eq_nil_iff.mpr fun _ _ => rfl
  have htexts : (f.text.flatMap fun r => [r]) = f.text := List.flatMap_singleton' f.text
  constructor <;>
    simp only [calls, List.flatMap_append, List.flatMap_cons, List.flatMap_nil, List.flatMap_map,
      ObjectProgram.Call.headers, ObjectProgram.Call.texts, ObjectProgram.Call.modifications,
      ObjectProgram.Call.ends, hnone, htexts, List.append_nil, List.nil_append]

theorem Feeds.build_eq {calls : List ObjectProgram.Call} (h : f.Feeds calls) :
    ObjectProgram.build calls = f.program := by
  rw [ObjectProgram.build_eq, h.header, h.text, h.modifications, h.finish]
  rfl

/-- A text that was read is the one that is written again exactly if it is canonical. -/
theorem render_eq_iff (h : parse t = .ok f) : f.program.render = t ↔ Canonical t := by
  have hspelled := parse_eq_ok_iff.mp h
  have hlines := hspelled.lines_eq_iff
  constructor
  · intro hrender
    have hrecords : Text.recordLines t = f.program.lines := by
      rw [← hrender, ObjectProgram.render_eq_lines, Text.recordLines_ended (unbroken_of_parse h)]
    have hne : ∀ l ∈ Text.recordLines t, l ≠ [] := by
      rw [hrecords]
      exact fun l => ObjectProgram.lines_ne_nil
    rw [filled_eq hne] at hlines
    refine ⟨?_, hne, hlines.mp hrecords.symm⟩
    rw [hrecords, ← ObjectProgram.render_eq_lines, hrender]
  · intro ht
    rw [filled_eq ht.filled] at hlines
    rw [ObjectProgram.render_eq_lines, hlines.mpr ht.tidy, ht.ended]

/-- A file that is read, put into a new program and written is read as the same file again, in
    whatever order its fields are put in. The text is the same exactly if it was canonical. -/
theorem parse_rebuilt (h : parse t = .ok f) : f.Feeds f.calls ∧
    ∀ calls, f.Feeds calls → parse (ObjectProgram.build calls).render = .ok f ∧
      ((ObjectProgram.build calls).render = t ↔ Canonical t) := by
  refine ⟨f.feeds_calls, fun calls hcalls => ?_⟩
  rw [hcalls.build_eq]
  exact ⟨parse_render (parse_eq_ok_iff.mp h).rewrite (unbroken_of_parse h), render_eq_iff h⟩

/-- A file in mixed case, with lines that end in different ways, an empty line, and blanks of two
    kinds behind the name. -/
def loose : Text :=
  "HA B\u3000  0010000000fF\r\nT\u2028\nT4cFf\rM00100b0c+a +\x0bE001000"

/-- The same file, written again. -/
def tight : Text :=
  "HA B   0010000000FF\nT\nT4cFf\nM00100B0C+a +\nE001000\n"

/-- The records of both. -/
def looseRecords : ObjectFile :=
  { header := { name := "A B", load := 0x1000, length := 0xFF }
    text := [{ code := [] }, { code := "4cFf" }]
    modifications := [{ start := 0x100B, halfBytes := 0x0C, symbol := "a +" }]
    finish := { entry := 0x1000 } }

theorem parse_rebuilt_loose :
    let calls : List ObjectProgram.Call :=
      [.addText [], .setEnd 0x1000, .addModifications looseRecords.modifications, .addText "4cFf",
        .setHeader looseRecords.header]
    parse loose = .ok looseRecords ∧ looseRecords.Feeds calls ∧
      parse (ObjectProgram.build calls).render = .ok looseRecords ∧
      (ObjectProgram.build calls).render = tight ∧ Canonical tight ∧ ¬ Canonical loose := by
  intro calls
  have hloose : parse loose = .ok looseRecords := by decide +kernel
  have hcalls : looseRecords.Feeds calls := ⟨rfl, rfl, rfl, rfl⟩
  have hrender : (ObjectProgram.build calls).render = tight := by decide +kernel
  obtain ⟨hparse, hsame⟩ := (parse_rebuilt hloose).2 calls hcalls
  refine ⟨hloose, hcalls, hparse, hrender, ?_, ?_⟩
  · exact ⟨by decide +kernel, by decide +kernel, by decide +kernel⟩
  · rw [← hsame, hrender]
    decide +kernel

end ObjectFile

end TwoPass
