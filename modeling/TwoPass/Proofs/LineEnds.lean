import Mathlib.Data.List.DropRight
import TwoPass.Proofs.Records
import TwoPass.Proofs.Sessions

/-
  Line ends make no difference. A source in memory is cut at newlines only and a file at carriage
  returns as well, but both passes see a line as it is without the characters that end it
  (`Scan.step_bare`, `Generation.step_bare`), so an assembly goes by the lines without their ends
  (`assemble_dropLineEnd`). Without their ends, the lines of a file are those of its text with each
  carriage return or pair written as a newline (`fileLines_unixEnds`), and a newline may as well be
  written as a pair (`lines_dosEnds`). The bytes of a text are read as that text
  (`Utf8.decode_encode`). So a file and its text in memory assemble alike (`assembleFile_agrees`).
-/

namespace TwoPass

/-! ## Characters as bytes -/

namespace Utf8

variable {position : Nat} {b0 b1 b2 b3 : UInt8} {rest : List UInt8}

theorem isContinuation_of (h : 0x80 ≤ b1.toNat ∧ b1.toNat ≤ 0xBF) : isContinuation b1 = true := by
  simpa [isContinuation] using h

theorem mayFollow_of (h : 0x80 ≤ b1.toNat ∧ b1.toNat ≤ 0xBF)
    (hE0 : b0.toNat = 0xE0 → 0xA0 ≤ b1.toNat) (hED : b0.toNat = 0xED → b1.toNat < 0xA0)
    (hF0 : b0.toNat = 0xF0 → 0x90 ≤ b1.toNat) (hF4 : b0.toNat = 0xF4 → b1.toNat < 0x90) :
    mayFollow b0 b1 = true := by
  simp only [mayFollow, isContinuation, Bool.and_eq_true, Bool.or_eq_true, bne_iff_ne,
    decide_eq_true_eq, ne_eq, ← UInt8.toNat_inj, UInt8.reduceToNat]
  omega

theorem decodeFrom_one (h0 : b0.toNat < 0x80) : decodeFrom position (b0 :: rest) =
    (decodeFrom (position + 1) rest).map (Char.ofNat b0.toNat :: ·) := by
  rw [decodeFrom.eq_def]
  simp only [if_pos h0]

theorem decodeFrom_two (h0 : 0xC2 ≤ b0.toNat ∧ b0.toNat < 0xE0) (h1 : mayFollow b0 b1 = true) :
    decodeFrom position (b0 :: b1 :: rest) =
      (decodeFrom (position + 2) rest).map (Char.ofNat (extend (b0.toNat - 0xC0) b1) :: ·) := by
  have ha : ¬ b0.toNat < 0x80 := by omega
  have hb : ¬ (b0.toNat < 0xC2 ∨ 0xF4 < b0.toNat) := by omega
  rw [decodeFrom.eq_def]
  simp only [if_neg ha, if_neg hb, h1, Bool.not_true, Bool.false_eq_true, if_false, if_pos h0.2]

theorem decodeFrom_three (h0 : 0xE0 ≤ b0.toNat ∧ b0.toNat < 0xF0) (h1 : mayFollow b0 b1 = true)
    (h2 : isContinuation b2 = true) : decodeFrom position (b0 :: b1 :: b2 :: rest) =
      (decodeFrom (position + 3) rest).map
        (Char.ofNat (extend (extend (b0.toNat - 0xE0) b1) b2) :: ·) := by
  have ha : ¬ b0.toNat < 0x80 := by omega
  have hb : ¬ (b0.toNat < 0xC2 ∨ 0xF4 < b0.toNat) := by omega
  have hc : ¬ b0.toNat < 0xE0 := by omega
  rw [decodeFrom.eq_def]
  simp only [if_neg ha, if_neg hb, h1, h2, Bool.not_true, Bool.false_eq_true, if_false, if_neg hc,
    if_pos h0.2]

theorem decodeFrom_four (h0 : 0xF0 ≤ b0.toNat ∧ b0.toNat ≤ 0xF4) (h1 : mayFollow b0 b1 = true)
    (h2 : isContinuation b2 = true) (h3 : isContinuation b3 = true) :
    decodeFrom position (b0 :: b1 :: b2 :: b3 :: rest) =
      (decodeFrom (position + 4) rest).map
        (Char.ofNat (extend (extend (extend (b0.toNat - 0xF0) b1) b2) b3) :: ·) := by
  have ha : ¬ b0.toNat < 0x80 := by omega
  have hb : ¬ (b0.toNat < 0xC2 ∨ 0xF4 < b0.toNat) := by omega
  have hc : ¬ b0.toNat < 0xE0 := by omega
  have hd : ¬ b0.toNat < 0xF0 := by omega
  rw [decodeFrom.eq_def]
  simp only [if_neg ha, if_neg hb, h1, h2, h3, Bool.not_true, Bool.false_eq_true, if_false,
    if_neg hc, if_neg hd]

/-- The bytes of a character are decoded as that character. -/
theorem decodeFrom_encodeChar (position : Nat) (c : Char) (rest : List UInt8) :
    ∃ k, decodeFrom position (encodeChar c ++ rest) =
      (decodeFrom (position + k) rest).map (c :: ·) := by
  have hvalid : c.toNat < 0xD800 ∨ 0xDFFF < c.toNat ∧ c.toNat < 0x110000 := c.valid
  have hchar : ∀ n, n = c.toNat → Char.ofNat n = c := by
    rintro _ rfl
    exact Char.ofNat_toNat c
  unfold encodeChar
  have hbyte : ∀ {m : Nat}, m < 256 → (UInt8.ofNat m).toNat = m := UInt8.toNat_ofNat_of_lt'
  generalize c.toNat = n at hvalid hchar
  dsimp only
  have hlow : (UInt8.ofNat (0x80 + n % 64)).toNat = 0x80 + n % 64 := hbyte (by omega)
  have hmid : (UInt8.ofNat (0x80 + n / 64 % 64)).toNat = 0x80 + n / 64 % 64 := hbyte (by omega)
  have hhigh : (UInt8.ofNat (0x80 + n / 4096 % 64)).toNat = 0x80 + n / 4096 % 64 := hbyte (by omega)
  split
  · have h0 : (UInt8.ofNat n).toNat = n := hbyte (by omega)
    refine ⟨1, ?_⟩
    rw [List.singleton_append, decodeFrom_one (by omega), hchar _ h0]
  · split
    · have h0 : (UInt8.ofNat (0xC0 + n / 64)).toNat = 0xC0 + n / 64 := hbyte (by omega)
      refine ⟨2, ?_⟩
      rw [List.cons_append, List.singleton_append, decodeFrom_two (by omega)
        (mayFollow_of (by omega) (by omega) (by omega) (by omega) (by omega)), hchar]
      unfold extend
      omega
    · split
      · have h0 : (UInt8.ofNat (0xE0 + n / 4096)).toNat = 0xE0 + n / 4096 := hbyte (by omega)
        refine ⟨3, ?_⟩
        rw [List.cons_append, List.cons_append, List.singleton_append, decodeFrom_three (by omega)
          (mayFollow_of (by omega) (by omega) (by omega) (by omega) (by omega))
          (isContinuation_of (by omega)), hchar]
        unfold extend
        omega
      · have h0 : (UInt8.ofNat (0xF0 + n / 262144)).toNat = 0xF0 + n / 262144 :=
          hbyte (by omega)
        refine ⟨4, ?_⟩
        rw [List.cons_append, List.cons_append, List.cons_append, List.singleton_append,
          decodeFrom_four (by omega)
          (mayFollow_of (by omega) (by omega) (by omega) (by omega) (by omega))
          (isContinuation_of (by omega)) (isContinuation_of (by omega)), hchar]
        unfold extend
        omega

theorem decodeFrom_encode (position : Nat) (t : Text) : decodeFrom position (encode t) = .ok t := by
  induction t generalizing position with
  | nil => rfl
  | cons c cs ih =>
    obtain ⟨k, hk⟩ := decodeFrom_encodeChar position c (encode cs)
    rw [show encode (c :: cs) = encodeChar c ++ encode cs from List.flatMap_cons, hk, ih]
    rfl

theorem decode_encode (t : Text) : decode (encode t) = .ok t := decodeFrom_encode 0 t

end Utf8

theorem SourceFile.ofBytes_encode (t : Text) :
    ofBytes (Utf8.encode t) = { lines := Text.fileLines t } := by
  unfold ofBytes
  rw [Utf8.decode_encode]

/-! ## Lines without their ends -/

namespace Text

/-- A text with each `\r\n`, and each `\r` that stands alone, written as `\n`. -/
def unixEnds : Text → Text
  | [] => []
  | '\r' :: '\n' :: cs => '\n' :: unixEnds cs
  | c :: cs => (if c = '\r' then '\n' else c) :: unixEnds cs

/-- A text with each `\n` written as `\r\n`. -/
def dosEnds (t : Text) : Text := t.flatMap fun c => if c = '\n' then ['\r', '\n'] else [c]

theorem dropLineEnd_dropLineEnd (t : Text) : dropLineEnd (dropLineEnd t) = dropLineEnd t :=
  List.rdropWhile_idempotent _ t

/-- What is dropped at the end may be dropped before a character is put in front. -/
theorem dropEndWhile_cons (p : Char → Bool) (c : Char) (t : Text) :
    dropEndWhile p (c :: dropEndWhile p t) = dropEndWhile p (c :: t) := by
  show List.rdropWhile p (c :: List.rdropWhile p t) = List.rdropWhile p (c :: t)
  induction t using List.reverseRecOn with
  | nil => rfl
  | append_singleton t d ih =>
    by_cases hd : p d = true
    · rw [List.rdropWhile_concat_pos p t d hd, ih, ← List.cons_append,
        List.rdropWhile_concat_pos p (c :: t) d hd]
    · rw [List.rdropWhile_concat_neg p t d hd]

theorem map_consLine (c : Char) (ls : List Text) :
    (consLine c (ls.map dropLineEnd)).map dropLineEnd = (consLine c ls).map dropLineEnd := by
  cases ls with
  | nil => rfl
  | cons l ls =>
    rw [List.map_cons, consLine, consLine, List.map_cons, List.map_cons, List.map_map]
    simp only [Function.comp_def, dropLineEnd_dropLineEnd]
    exact congrArg (· :: _) (dropEndWhile_cons _ c l)

theorem map_consLine_congr (c : Char) {ls ls' : List Text}
    (h : ls.map dropLineEnd = ls'.map dropLineEnd) :
    (consLine c ls).map dropLineEnd = (consLine c ls').map dropLineEnd := by
  rw [← map_consLine, h, map_consLine]

/-- But for their ends, the lines of a file are the lines of its text with newlines only. -/
theorem fileLines_unixEnds (t : Text) :
    (lines (unixEnds t)).map dropLineEnd = (fileLines t).map dropLineEnd := by
  fun_induction fileLines t with
  | case1 => rfl
  | case2 cs ih =>
    rw [unixEnds, lines, if_pos rfl, List.map_cons, List.map_cons, ih]
    rfl
  | case3 c cs hne hend ih =>
    have hunix : unixEnds (c :: cs) = '\n' :: unixEnds cs := by
      rw [unixEnds]
      · rcases hend with rfl | rfl <;> rfl
      · exact hne
    rw [hunix, lines, if_pos rfl, List.map_cons, List.map_cons, ih]
    rcases hend with rfl | rfl <;> rfl
  | case4 c cs hne hend ih =>
    have hunix : unixEnds (c :: cs) = c :: unixEnds cs := by
      rw [unixEnds, if_neg fun h => hend (.inr h)]
      exact hne
    rw [hunix, lines, if_neg fun h => hend (.inl h)]
    exact map_consLine_congr c ih

/-- But for their ends, the lines are the same with pairs in the place of newlines. -/
theorem lines_dosEnds (t : Text) :
    (lines (dosEnds t)).map dropLineEnd = (lines t).map dropLineEnd := by
  induction t with
  | nil => rfl
  | cons c cs ih =>
    by_cases hc : c = '\n'
    · subst hc
      have hdos : dosEnds ('\n' :: cs) = '\r' :: '\n' :: dosEnds cs := rfl
      rw [hdos, lines, lines, if_pos rfl, lines, if_pos rfl, List.map_cons, ← ih]
      rfl
    · have hdos : dosEnds (c :: cs) = c :: dosEnds cs := by
        unfold dosEnds
        rw [List.flatMap_cons, if_neg hc, List.singleton_append]
      rw [hdos, lines, lines, if_neg hc, if_neg hc]
      exact map_consLine_congr c ih

theorem all_isBlank_dropLineEnd (t : Text) :
    (dropLineEnd t).all isBlank = true ↔ t.all isBlank = true := by
  refine ⟨all_isBlank_of_dropLineEnd, fun h => ?_⟩
  rw [List.all_eq_true] at h ⊢
  exact fun c hc => h c ((List.rdropWhile_prefix _ t).subset hc)

end Text

/-! ## Assembly without line ends -/

/-- The kind of a line does not hang on its end. -/
theorem LineKind.of_dropLineEnd (raw : Text) : of (Text.dropLineEnd raw) = of raw := by
  have hblank := Text.all_isBlank_dropLineEnd raw
  cases raw with
  | nil => rfl
  | cons c cs =>
    cases hd : Text.dropLineEnd (c :: cs) with
    | nil =>
      rw [hd] at hblank
      rw [of, of, if_pos (.inr (hblank.mp rfl))]
    | cons d ds =>
      have hfirst : d = c := by
        have hprefix : d :: ds <+: c :: cs := hd ▸ List.rdropWhile_prefix _ (c :: cs)
        exact (List.cons_prefix_cons.mp hprefix).1
      subst hfirst
      rw [hd] at hblank
      simp only [of, hblank]

theorem Statement.read_dropLineEnd (kind : LineKind) (raw : Text) (location : Option Location) :
    read kind (Text.dropLineEnd raw) location = read kind raw location := by
  unfold read
  rw [Text.dropLineEnd_dropLineEnd]

/-- A line without its end. -/
def Line.bare (line : Line) : Line := { line with raw := Text.dropLineEnd line.raw }

theorem numberLines_bare (file : Text) (lines : List Text) :
    numberLines file (lines.map Text.dropLineEnd) = (numberLines file lines).map Line.bare := by
  unfold numberLines
  rw [List.zipIdx_map, List.map_map, List.map_map]
  rfl

theorem Scan.step_bare (options : Options) (s : Scan) (line : Line) :
    s.step options line.bare = s.step options line := by
  unfold step Line.bare
  dsimp only
  rw [LineKind.of_dropLineEnd, Statement.read_dropLineEnd, Text.dropLineEnd_dropLineEnd]

theorem layOut_bare (options : Options) (lines : List Line) :
    layOut options (lines.map Line.bare) = layOut options lines := by
  unfold layOut
  rw [List.foldlM_map]
  simp only [Scan.step_bare]

theorem Generation.step_bare (options : Options) (layout : Layout) (g : Generation) (line : Line) :
    g.step options layout line.bare = g.step options layout line := by
  unfold step Line.bare
  dsimp only
  rw [LineKind.of_dropLineEnd, Statement.read_dropLineEnd, Text.dropLineEnd_dropLineEnd]

theorem Generation.run_bare (options : Options) (layout : Layout) (file : Text) (g : Generation)
    (lines : List Line) :
    run options layout file g (lines.map Line.bare) = run options layout file g lines := by
  induction lines generalizing g with
  | nil => rfl
  | cons line rest ih =>
    rw [List.map_cons, run, run, step_bare]
    simp only [ih]

/-- An assembly goes by the lines without their ends. -/
theorem assemble_dropLineEnd (options : Options) (file : Text) (lines : List Text) :
    assemble options file (lines.map Text.dropLineEnd) = assemble options file lines := by
  unfold assemble generate
  simp only [numberLines_bare, layOut_bare, Generation.run_bare]

theorem assemble_congr (options : Options) (file : Text) {lines lines' : List Text}
    (h : lines.map Text.dropLineEnd = lines'.map Text.dropLineEnd) :
    assemble options file lines = assemble options file lines' := by
  rw [← assemble_dropLineEnd, h, assemble_dropLineEnd]

/-! ## Files and texts -/

namespace Session

/-- Two commands that came to the same: with the same answer or fault, the same notices, and the same
    to be had afterwards. -/
structure SameOutcome (x y : Session × Reply Answer) : Prop where
  result : x.2.result = y.2.result
  notices : x.2.notices = y.2.notices
  assembler : x.1.assembler.Agrees y.1.assembler

/-- Commands with one outcome come to the same, whatever they say of it. -/
theorem sameOutcome_after (a b : Assembler) (files : Store) (o : Outcome) (said said' : Text) :
    SameOutcome (⟨a.after o, files⟩, outcomeReply o said)
      (⟨b.after o, files⟩, outcomeReply o said') :=
  ⟨rfl, rfl, Assembler.agrees_of_eq rfl rfl⟩

theorem assembleFile_encode {s : Session} {text p : Text} (hp : Path.normalize p = p)
    (hread : s.files.read p = .ok (Utf8.encode text)) :
    ∃ (a : Assembler) (said : Text), s.assembleFile p =
      (⟨a.after (assemble s.assembler.options p (Text.fileLines text)), s.files⟩,
        outcomeReply (assemble s.assembler.options p (Text.fileLines text)) said) := by
  refine ⟨{ s.assembler with source := some p }, s.assembler.say ("Assembling " ++ p ++ "..."), ?_⟩
  unfold assembleFile
  simp only [hp, hread, SourceFile.ofBytes_encode]
  rfl

/-- A file is assembled like its text in memory. Whatever ends the lines of the file, it comes to the
    same as its text with newlines only, and so does that text with a carriage return before each
    newline. -/
theorem assembleFile_agrees (s : Session) (text p : Text) :
    (Path.normalize p = p → s.files.read p = .ok (Utf8.encode text) →
      SameOutcome (s.perform (.assembleFile p))
        (s.perform (.assembleText (Text.unixEnds text) p))) ∧
      SameOutcome (s.perform (.assembleText (Text.unixEnds text) p))
        (s.perform (.assembleText (Text.dosEnds (Text.unixEnds text)) p)) := by
  have hfile : assemble s.assembler.options p (Text.fileLines text) =
      TwoPass.assembleText s.assembler.options p (Text.unixEnds text) :=
    assemble_congr _ _ (Text.fileLines_unixEnds text).symm
  have hdos : TwoPass.assembleText s.assembler.options p (Text.dosEnds (Text.unixEnds text)) =
      TwoPass.assembleText s.assembler.options p (Text.unixEnds text) :=
    assemble_congr _ _ (Text.lines_dosEnds _)
  constructor
  · intro hp hread
    obtain ⟨a, said, hperform⟩ := assembleFile_encode hp hread
    rw [hfile] at hperform
    rw [show s.perform (.assembleFile p) = _ from hperform]
    exact sameOutcome_after a s.assembler s.files _ said _
  · have hperform : s.perform (.assembleText (Text.dosEnds (Text.unixEnds text)) p) =
        s.perform (.assembleText (Text.unixEnds text) p) := by
      simp only [perform, assembleText, hdos]
    rw [hperform]
    exact sameOutcome_after s.assembler s.assembler s.files _ _ _

/-- A source with each kind of line end. -/
def mixedEnds : Text :=
  "COPY START 1000\r\n# é\r\rEOF BYTE C'EOF'\n LDA EOF\r\n\n RSUB\r END COPY"

theorem assembleFile_agrees_mixedEnds :
    let s := start {} (({} : Store).put "a.asm" (.file (Utf8.encode mixedEnds)))
    Path.normalize "a.asm" = "a.asm" ∧ s.files.read "a.asm" = .ok (Utf8.encode mixedEnds) ∧
      (s.perform (.assembleFile "a.asm")).1.assembler.objectText = .ok
        "HCOPY  001000000009\nT454F46\nT001000\nT4C0000\nM00100004+EOF\nE001000\n" ∧
      SameOutcome (s.perform (.assembleFile "a.asm"))
        (s.perform (.assembleText (Text.unixEnds mixedEnds) "a.asm")) ∧
      SameOutcome (s.perform (.assembleText (Text.unixEnds mixedEnds) "a.asm"))
        (s.perform (.assembleText (Text.dosEnds (Text.unixEnds mixedEnds)) "a.asm")) := by
  intro s
  have hp : Path.normalize "a.asm" = "a.asm" := by decide +kernel
  have hread : s.files.read "a.asm" = .ok (Utf8.encode mixedEnds) := by decide +kernel
  obtain ⟨hfile, hdos⟩ := assembleFile_agrees s mixedEnds "a.asm"
  exact ⟨hp, hread, by decide +kernel, hfile hp hread, hdos⟩

end Session

end TwoPass
