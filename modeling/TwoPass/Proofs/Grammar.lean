import Mathlib.Data.List.Forall2
import TwoPass.Object.File
import TwoPass.Proofs.Numerals
import TwoPass.Proofs.Reading

/-
  The grammar of object files. For each kind of record `Spelled` relates the lines that hold one to
  the record, and `ObjectFile.Spelled` the lines of a file to the file: a header, text records,
  modification records and an end record. A reader goes by the rank of its last record instead. It
  has taken in the lines of its program, and no record beyond its rank (`Reader.Took`): a step keeps
  this, and so does a run. Lines that the grammar admits are taken in kind by kind. So a text is
  read exactly if its lines are those of a file, the empty ones left out (`parse_accepts_spelled`).
-/

namespace TwoPass

open Object

/-! ## Records -/

namespace Object

/-- A header: a name of any six characters, and two fields of six digits. -/
inductive Header.Spelled : Text → Header → Prop
  | intro {name load length : Text} (hname : name.length = 6) (hload : Hex.IsField 6 load)
      (hlength : Hex.IsField 6 length) :
      Spelled ('H' :: (name ++ (load ++ length)))
        { name := Text.trimEnd name, load := Hex.value load, length := Hex.value length }

/-- A text record: digits in pairs, or none. -/
inductive TextRecord.Spelled : Text → TextRecord → Prop
  | intro {code : Text} (heven : code.length % 2 = 0) (hcode : ∀ c ∈ code, c ∈ Hex.alphabet) :
      Spelled ('T' :: code) { code }

/-- A modification record: six digits, two digits, a sign and a symbol. -/
inductive Modification.Spelled : Text → Modification → Prop
  | intro {start halfBytes symbol : Text} (hstart : Hex.IsField 6 start)
      (hhalf : Hex.IsField 2 halfBytes) (hsymbol : symbol ≠ []) :
      Spelled ('M' :: (start ++ (halfBytes ++ '+' :: symbol)))
        { start := Hex.value start, halfBytes := Hex.value halfBytes, symbol }

/-- An end record: six digits. -/
inductive EndRecord.Spelled : Text → EndRecord → Prop
  | intro {entry : Text} (hentry : Hex.IsField 6 entry) :
      Spelled ('E' :: entry) { entry := Hex.value entry }

section Letters

variable {line : Text}

theorem Header.Spelled.letter {h : Header} :
    Spelled line h → ∃ cs, line = RecordKind.header.letter :: cs
  | intro _ _ _ => ⟨_, rfl⟩

theorem TextRecord.Spelled.letter {r : TextRecord} :
    Spelled line r → ∃ cs, line = RecordKind.text.letter :: cs
  | intro _ _ => ⟨_, rfl⟩

theorem Modification.Spelled.letter {m : Modification} :
    Spelled line m → ∃ cs, line = RecordKind.modification.letter :: cs
  | intro _ _ _ => ⟨_, rfl⟩

theorem EndRecord.Spelled.letter {e : EndRecord} :
    Spelled line e → ∃ cs, line = RecordKind.finish.letter :: cs
  | intro _ => ⟨_, rfl⟩

end Letters

theorem hexField_eq_ok_iff {t : Text} {n : Nat} : hexField t = .ok n ↔
    t ≠ [] ∧ (∀ c ∈ t, c ∈ Hex.alphabet) ∧ n = Hex.value t := by
  rw [← Hex.read?_eq_some_iff]
  unfold hexField
  cases Hex.read? t <;> simp

theorem hexField_of_isField {width : Nat} {t : Text} (h : Hex.IsField width t) (hw : 0 < width) :
    hexField t = .ok (Hex.value t) := by
  refine hexField_eq_ok_iff.mpr ⟨?_, h.2, rfl⟩
  rintro rfl
  exact absurd h.1 (Nat.ne_of_lt hw)

theorem isField_of_hexField {width : Nat} {t : Text} {n : Nat} (hlen : t.length = width)
    (h : hexField t = .ok n) : Hex.IsField width t ∧ n = Hex.value t := by
  obtain ⟨-, hdigits, hvalue⟩ := hexField_eq_ok_iff.mp h
  exact ⟨⟨hlen, hdigits⟩, hvalue⟩

theorem Header.read_fields {name load length : Text} (hname : name.length = nameWidth)
    (hload : load.length = addressWidth) (hlength : length.length = addressWidth) :
    read ('H' :: (name ++ (load ++ length))) = hexField load >>= fun l =>
      hexField length >>= fun n => .ok { name := Text.trimEnd name, load := l, length := n } := by
  have htotal : (name ++ (load ++ length)).length = nameWidth + 2 * addressWidth := by
    rw [List.length_append, List.length_append, hname, hload, hlength]
    rfl
  have hdrop : (name ++ (load ++ length)).drop (nameWidth + addressWidth) = length := by
    rw [← List.append_assoc]
    exact List.drop_left' (by rw [List.length_append, hname, hload])
  rw [read, if_pos htotal, List.drop_left' hname, List.take_left' hload, hdrop,
    List.take_left' hname]
  rfl

theorem Header.read_eq_ok_iff {line : Text} {h : Header} :
    read line = .ok h ↔ Spelled line h := by
  constructor
  · intro hr
    unfold read at hr
    split at hr
    · rename_i body
      split at hr
      · rename_i hlen
        have hw : nameWidth = 6 ∧ addressWidth = 6 := ⟨rfl, rfl⟩
        have hname : (body.take nameWidth).length = 6 := by rw [List.length_take]; omega
        have hload : ((body.drop nameWidth).take addressWidth).length = 6 := by
          rw [List.length_take, List.length_drop]
          omega
        have hlength : (body.drop (nameWidth + addressWidth)).length = 6 := by
          rw [List.length_drop]
          omega
        have hbody : body.take nameWidth ++ ((body.drop nameWidth).take addressWidth ++
            body.drop (nameWidth + addressWidth)) = body := by
          rw [← List.drop_drop, List.take_append_drop, List.take_append_drop]
        obtain ⟨load, hl, hr⟩ := bind_eq_ok hr
        obtain ⟨length, hn, hr⟩ := bind_eq_ok hr
        cases hr
        obtain ⟨hload, rfl⟩ := isField_of_hexField hload hl
        obtain ⟨hlength, rfl⟩ := isField_of_hexField hlength hn
        have hspelled := Spelled.intro hname hload hlength
        rwa [hbody] at hspelled
      · cases hr
    · cases hr
  · rintro ⟨hname, hload, hlength⟩
    rw [read_fields hname hload.1 hlength.1, hexField_of_isField hload (by decide), ok_bind,
      hexField_of_isField hlength (by decide), ok_bind]

theorem TextRecord.read_eq_ok_iff {line : Text} {r : TextRecord} :
    read line = .ok r ↔ Spelled line r := by
  constructor
  · intro hr
    unfold read at hr
    split at hr
    · rename_i body
      split at hr
      · cases hr
      · rename_i heven
        have heven : body.length % 2 = 0 := by omega
        split at hr
        · rename_i hnil
          cases hr
          exact .intro heven (by rw [hnil]; nofun)
        · obtain ⟨n, hn, rfl⟩ := map_eq_ok_iff.mp hr
          exact .intro heven (hexField_eq_ok_iff.mp hn).2.1
    · cases hr
  · rintro ⟨heven, hcode⟩
    rename_i code
    rw [read, if_neg (by omega)]
    by_cases hnil : code = []
    · rw [if_pos hnil]
    · rw [if_neg hnil, hexField_eq_ok_iff.mpr ⟨hnil, hcode, rfl⟩]
      rfl

theorem Modification.read_fields {start halfBytes symbol : Text}
    (hstart : start.length = addressWidth) (hhalf : halfBytes.length = 2) (hne : symbol ≠ []) :
    read ('M' :: (start ++ (halfBytes ++ '+' :: symbol))) = hexField start >>= fun s =>
      hexField halfBytes >>= fun h => .ok { start := s, halfBytes := h, symbol } := by
  obtain ⟨c, cs, rfl⟩ := List.exists_cons_of_ne_nil hne
  have hdrop : (start ++ (halfBytes ++ '+' :: c :: cs)).drop (addressWidth + 2) =
      '+' :: c :: cs := by
    rw [← List.append_assoc]
    exact List.drop_left' (by rw [List.length_append, hstart, hhalf])
  rw [read, hdrop, List.take_left' hstart, List.drop_left' hstart, List.take_left' hhalf]
  rfl

theorem Modification.read_eq_ok_iff {line : Text} {m : Modification} :
    read line = .ok m ↔ Spelled line m := by
  constructor
  · intro hr
    unfold read at hr
    split at hr
    · rename_i body
      split at hr
      · rename_i c symbol hdrop
        have hw : addressWidth = 6 := rfl
        -- The sign is there, so the fields before it are whole.
        have hlong : 8 < body.length := by
          have := congrArg List.length hdrop
          rw [List.length_drop, List.length_cons] at this
          omega
        have hstart : (body.take addressWidth).length = 6 := by rw [List.length_take]; omega
        have hhalf : ((body.drop addressWidth).take 2).length = 2 := by
          rw [List.length_take, List.length_drop]
          omega
        have hbody : body.take addressWidth ++ ((body.drop addressWidth).take 2 ++
            '+' :: c :: symbol) = body := by
          rw [← hdrop, ← List.drop_drop, List.take_append_drop, List.take_append_drop]
        obtain ⟨start, hs, hr⟩ := bind_eq_ok hr
        obtain ⟨half, hh, hr⟩ := bind_eq_ok hr
        cases hr
        obtain ⟨hstart, rfl⟩ := isField_of_hexField hstart hs
        obtain ⟨hhalf, rfl⟩ := isField_of_hexField hhalf hh
        have hspelled := Spelled.intro hstart hhalf (List.cons_ne_nil c symbol)
        rwa [hbody] at hspelled
      · cases hr
    · cases hr
  · rintro ⟨hstart, hhalf, hsymbol⟩
    rw [read_fields hstart.1 hhalf.1 hsymbol, hexField_of_isField hstart (by decide), ok_bind,
      hexField_of_isField hhalf (by decide), ok_bind]

theorem EndRecord.read_eq_ok_iff {line : Text} {e : EndRecord} :
    read line = .ok e ↔ Spelled line e := by
  constructor
  · intro hr
    unfold read at hr
    split at hr
    · split at hr
      · rename_i hlen
        obtain ⟨n, hn, rfl⟩ := map_eq_ok_iff.mp hr
        obtain ⟨value, hvalue, hn⟩ := bind_eq_ok hn
        obtain ⟨hentry, rfl⟩ := isField_of_hexField hlen hvalue
        cases hn
        exact .intro hentry
      · cases hr
    · cases hr
  · rintro ⟨hentry⟩
    rename_i entry
    have hlen : entry.length = addressWidth := hentry.1
    rw [read, if_pos hlen, hexField_of_isField hentry (by decide)]
    rfl

end Object

/-! ## Files -/

/-- The lines of a program under construction, in the order of a file. -/
inductive ObjectProgram.Spelled : List Text → ObjectProgram → Prop
  | intro {header text modifications finish : List Text} {p : ObjectProgram}
      (hheader : List.Forall₂ Header.Spelled header p.header.toList)
      (htext : List.Forall₂ TextRecord.Spelled text p.text)
      (hmodifications : List.Forall₂ Modification.Spelled modifications p.modifications)
      (hfinish : List.Forall₂ EndRecord.Spelled finish p.finish.toList) :
      Spelled (header ++ (text ++ (modifications ++ finish))) p

/-- The lines of a file: one header, any number of text records, any number of modification
    records, and one end record. -/
inductive ObjectFile.Spelled : List Text → ObjectFile → Prop
  | intro {header finish : Text} {text modifications : List Text} {f : ObjectFile}
      (hheader : Header.Spelled header f.header)
      (htext : List.Forall₂ TextRecord.Spelled text f.text)
      (hmodifications : List.Forall₂ Modification.Spelled modifications f.modifications)
      (hfinish : EndRecord.Spelled finish f.finish) :
      Spelled (header :: (text ++ (modifications ++ [finish]))) f

/-- A section without records has no lines. -/
theorem lines_eq_nil {α : Type} {R : Text → α → Prop} {lines : List Text} {xs : List α}
    (h : List.Forall₂ R lines xs) (hx : xs = []) : lines = [] := by
  subst hx
  cases h
  rfl

theorem exists_line {α : Type} {R : Text → α → Prop} {lines : List Text} {xs : List α}
    (h : List.Forall₂ R lines xs) {x : α} (hx : x ∈ xs) : ∃ line ∈ lines, R line x := by
  induction h with
  | nil => exact absurd hx List.not_mem_nil
  | cons hline _ ih =>
    rcases List.mem_cons.mp hx with rfl | hx
    · exact ⟨_, List.mem_cons_self, hline⟩
    · obtain ⟨line, hmem, hspelled⟩ := ih hx
      exact ⟨line, List.mem_cons_of_mem _ hmem, hspelled⟩

namespace ObjectProgram.Spelled

variable {lines : List Text} {line : Text} {p : ObjectProgram}

theorem setHeader (h : Spelled lines p) (hheader : p.header = none) (htext : p.text = [])
    (hmodifications : p.modifications = []) (hfinish : p.finish = none) {header : Header}
    (hline : Header.Spelled line header) : Spelled (lines ++ [line]) (p.setHeader header) := by
  obtain ⟨hh, ht, hm, hf⟩ := h
  obtain rfl := lines_eq_nil hh (by rw [hheader]; rfl)
  obtain rfl := lines_eq_nil ht htext
  obtain rfl := lines_eq_nil hm hmodifications
  obtain rfl := lines_eq_nil hf (by rw [hfinish]; rfl)
  have hlines := intro (p := p.setHeader header) (.cons hline .nil) ht hm hf
  simpa using hlines

theorem addText (h : Spelled lines p) (hmodifications : p.modifications = [])
    (hfinish : p.finish = none) {t : TextRecord} (hline : TextRecord.Spelled line t) :
    Spelled (lines ++ [line]) (p.addText t.code) := by
  obtain ⟨hh, ht, hm, hf⟩ := h
  obtain rfl := lines_eq_nil hm hmodifications
  obtain rfl := lines_eq_nil hf (by rw [hfinish]; rfl)
  have hlines := intro (p := p.addText t.code) hh (List.rel_append ht (.cons hline .nil)) hm hf
  simpa using hlines

theorem addModification (h : Spelled lines p) (hfinish : p.finish = none) {m : Modification}
    (hline : Modification.Spelled line m) :
    Spelled (lines ++ [line]) (p.addModifications [m]) := by
  obtain ⟨hh, ht, hm, hf⟩ := h
  obtain rfl := lines_eq_nil hf (by rw [hfinish]; rfl)
  have hlines := intro (p := p.addModifications [m]) hh ht
    (List.rel_append hm (.cons hline .nil)) hf
  simpa using hlines

theorem setEnd (h : Spelled lines p) (hfinish : p.finish = none) {e : EndRecord}
    (hline : EndRecord.Spelled line e) : Spelled (lines ++ [line]) (p.setEnd e.entry) := by
  obtain ⟨hh, ht, hm, hf⟩ := h
  obtain rfl := lines_eq_nil hf (by rw [hfinish]; rfl)
  have hlines := intro (p := p.setEnd e.entry) hh ht hm (.cons hline .nil)
  simpa using hlines

end ObjectProgram.Spelled

namespace ObjectFile

/-- The records of a file as a program. -/
def program (f : ObjectFile) : ObjectProgram :=
  { header := some f.header, text := f.text, modifications := f.modifications,
    finish := some f.finish }

theorem ofProgram_eq_ok_iff {p : ObjectProgram} {f : ObjectFile} :
    ofProgram p = .ok f ↔ p = f.program := by
  obtain ⟨header, text, modifications, finish⟩ := p
  obtain ⟨h, t, m, e⟩ := f
  cases header <;> cases finish <;> simp [ofProgram, program]

theorem spelled_of_program {lines : List Text} {f : ObjectFile}
    (h : f.program.Spelled lines) : f.Spelled lines := by
  obtain ⟨hh, ht, hm, hf⟩ := h
  obtain ⟨header, _, hheader, hnil, rfl⟩ := List.forall₂_cons_right_iff.mp hh
  obtain ⟨finish, _, hfinish, hnil', rfl⟩ := List.forall₂_cons_right_iff.mp hf
  rw [List.forall₂_nil_right_iff.mp hnil, List.forall₂_nil_right_iff.mp hnil']
  exact .intro hheader ht hm hfinish

end ObjectFile

/-! ## Reading -/

namespace ObjectFile.Reader

variable {r r' : Reader} {line : Text} {lines : List Text} {n : Nat}

/-! ### Steps -/

section Accept

variable {p : ObjectProgram}

theorem accept_header_iff : r.accept .header line = .ok p ↔
    ∃ h, Header.Spelled line h ∧ p = r.program.setHeader h := by
  rw [accept, map_eq_ok_iff]
  simp only [Header.read_eq_ok_iff]

theorem accept_text_iff : r.accept .text line = .ok p ↔
    ∃ t, TextRecord.Spelled line t ∧ p = r.program.addText t.code := by
  rw [accept, map_eq_ok_iff]
  simp only [TextRecord.read_eq_ok_iff]

theorem accept_modification_iff : r.accept .modification line = .ok p ↔
    ∃ m, Modification.Spelled line m ∧ p = r.program.addModifications [m] := by
  rw [accept, map_eq_ok_iff]
  simp only [Modification.read_eq_ok_iff]

theorem accept_finish_iff : r.accept .finish line = .ok p ↔
    ∃ e, EndRecord.Spelled line e ∧ p = r.program.setEnd e.entry := by
  rw [accept, map_eq_ok_iff]
  simp only [EndRecord.read_eq_ok_iff]

end Accept

/-- A line is taken in if no end record came before it, its kind is not out of order, and it holds a
    record of that kind. -/
theorem step_eq_ok_iff {c : Char} : r.step c line = .ok r' ↔ ∃ kind p,
    RecordKind.ofLetter? c = some kind ∧ r.program.finish = none ∧ r.rank ≤ kind.rank ∧
    (kind = .header → r.program.header = none) ∧ r.accept kind line = .ok p ∧
    r' = { program := p, rank := kind.rank } := by
  constructor
  · intro h
    unfold step at h
    split at h
    · cases h
    · rename_i kind hk
      split at h
      · cases h
      · rename_i hf
        split at h
        · cases h
        · rename_i ho
          split at h
          · cases h
          · rename_i p ha
            cases h
            refine ⟨kind, p, hk, by simpa using hf, ?_, fun hkind => ?_, ha, rfl⟩
            · exact Nat.not_lt.mp fun hlt => ho (.inl hlt)
            · rw [← Option.not_isSome_iff_eq_none]
              exact fun hs => ho (.inr ⟨hkind, hs⟩)
  · rintro ⟨kind, p, hk, hf, hr, hh, ha, rfl⟩
    have ho : ¬ (kind.rank < r.rank ∨ kind = .header ∧ r.program.header.isSome = true) := by
      rintro (hlt | ⟨hkind, hs⟩)
      · omega
      · rw [hh hkind] at hs
        cases hs
    have hfin : ¬ r.program.finish.isSome = true := by rw [hf]; decide
    unfold step
    simp only [hk, if_neg hfin, if_neg ho, ha]

/-- A record that is in order is taken in, and the reader goes on with the next line. -/
theorem run_accept (kind : RecordKind) {cs : Text} {p : ObjectProgram}
    (hf : r.program.finish = none) (hr : r.rank ≤ kind.rank)
    (hh : kind = .header → r.program.header = none)
    (ha : r.accept kind (kind.letter :: cs) = .ok p) (n : Nat) (rest : List Text) :
    run n r ((kind.letter :: cs) :: rest) =
      run (n + 1) { program := p, rank := kind.rank } rest := by
  have hkind : RecordKind.ofLetter? kind.letter = some kind := by cases kind <;> rfl
  rw [run, step_eq_ok_iff.mpr ⟨kind, p, hkind, hf, hr, hh, ha, rfl⟩]

/-! ### What was taken in -/

/-- What a reader has taken in: the lines of its program, with no record beyond its rank. -/
structure Took (r : Reader) (lines : List Text) : Prop where
  spelled : r.program.Spelled lines
  text : r.rank < 1 → r.program.text = []
  modifications : r.rank < 2 → r.program.modifications = []

theorem Took.step {c : Char} (h : r.Took lines) (hs : r.step c line = .ok r') :
    r'.Took (lines ++ [line]) := by
  obtain ⟨kind, p, -, hfinish, hrank, hheader, ha, rfl⟩ := step_eq_ok_iff.mp hs
  -- A record of a kind finds the sections of the kinds behind it empty, so it stands at the end.
  cases kind with
  | header =>
    obtain ⟨header, hline, rfl⟩ := accept_header_iff.mp ha
    have htext := h.text (Nat.lt_succ_of_le hrank)
    have hmodifications := h.modifications (Nat.lt_of_le_of_lt hrank (by decide))
    exact ⟨h.spelled.setHeader (hheader rfl) htext hmodifications hfinish hline,
      fun _ => htext, fun _ => hmodifications⟩
  | text =>
    obtain ⟨t, hline, rfl⟩ := accept_text_iff.mp ha
    have hmodifications := h.modifications (Nat.lt_succ_of_le hrank)
    exact ⟨h.spelled.addText hmodifications hfinish hline,
      by simp [RecordKind.rank], fun _ => hmodifications⟩
  | modification =>
    obtain ⟨m, hline, rfl⟩ := accept_modification_iff.mp ha
    exact ⟨h.spelled.addModification hfinish hline,
      by simp [RecordKind.rank], by simp [RecordKind.rank]⟩
  | finish =>
    obtain ⟨e, hline, rfl⟩ := accept_finish_iff.mp ha
    exact ⟨h.spelled.setEnd hfinish hline,
      by simp [RecordKind.rank], by simp [RecordKind.rank]⟩

/-- A run takes in all lines but the empty ones. -/
theorem Took.run {ls : List Text} (h : r.Took lines) (hr : run n r ls = .ok r') :
    r'.Took (lines ++ ls.filter (· ≠ [])) := by
  fun_induction Reader.run n r ls generalizing lines with
  | case1 n r =>
    cases hr
    rw [List.filter_nil, List.append_nil]
    exact h
  | case2 n r ls ih =>
    rw [List.filter_cons_of_neg (by simp)]
    exact ih h hr
  | case3 n r c cs ls cause hs => cases hr
  | case4 n r c cs ls r₁ hs ih =>
    have htook := ih (h.step hs) hr
    rw [List.append_assoc, List.singleton_append] at htook
    rw [List.filter_cons_of_pos (by simp)]
    exact htook

/-! ### Lines of a file -/

/-- Empty lines are counted and skipped. -/
theorem run_filter {m : Nat} {ls : List Text} (h : run n r (ls.filter (· ≠ [])) = .ok r') :
    run m r ls = .ok r' := by
  induction ls generalizing n m r with
  | nil => exact h
  | cons l ls ih =>
    cases l with
    | nil =>
      rw [List.filter_cons_of_neg (by simp)] at h
      exact ih h
    | cons c cs =>
      rw [List.filter_cons_of_pos (by simp), run] at h
      rw [run]
      cases hs : r.step c (c :: cs) with
      | error cause =>
        rw [hs] at h
        cases h
      | ok r₁ =>
        rw [hs] at h
        exact ih h

/-- Records of one kind are taken in one after the other. -/
theorem run_section {α : Type} {R : Text → α → Prop} {xs : List α} (kind : RecordKind)
    (add : ObjectProgram → α → ObjectProgram) (hk : kind ≠ .header)
    (hfin : ∀ p x, (add p x).finish = p.finish)
    (hletter : ∀ {line x}, R line x → ∃ cs, line = kind.letter :: cs)
    (haccept : ∀ {line x}, R line x → ∀ r : Reader, r.accept kind line = .ok (add r.program x))
    (h : List.Forall₂ R lines xs) {p : ObjectProgram} (hf : p.finish = none) {rank : Nat}
    (hr : rank ≤ kind.rank) (n : Nat) (rest : List Text) :
    ∃ m rank', rank' ≤ kind.rank ∧ run n { program := p, rank } (lines ++ rest) =
      run m { program := xs.foldl add p, rank := rank' } rest := by
  induction h generalizing p rank n with
  | nil => exact ⟨n, rank, hr, rfl⟩
  | cons hline _ ih =>
    obtain ⟨cs, rfl⟩ := hletter hline
    have hstep := run_accept kind hf hr (fun h => absurd h hk)
      (haccept hline { program := p, rank }) n
    obtain ⟨m, rank', hrank, hrun⟩ := ih ((hfin _ _).trans hf) (Nat.le_refl _) (n + 1)
    refine ⟨m, rank', hrank, ?_⟩
    rw [List.cons_append, hstep, hrun]
    rfl

theorem foldl_addText (p : ObjectProgram) (ts : List TextRecord) :
    ts.foldl (fun p t => p.addText t.code) p = { p with text := p.text ++ ts } := by
  induction ts generalizing p with
  | nil => rw [List.append_nil]; rfl
  | cons t ts ih =>
    rw [List.foldl_cons, ih]
    simp only [ObjectProgram.addText, List.append_assoc, List.singleton_append]

theorem foldl_addModifications (p : ObjectProgram) (ms : List Modification) :
    ms.foldl (fun p m => p.addModifications [m]) p =
      { p with modifications := p.modifications ++ ms } := by
  induction ms generalizing p with
  | nil => rw [List.append_nil]; rfl
  | cons m ms ih =>
    rw [List.foldl_cons, ih]
    simp only [ObjectProgram.addModifications, List.append_assoc, List.singleton_append]

/-- The lines of a file are read as that file. -/
theorem run_spelled {f : ObjectFile} (h : f.Spelled lines) (n : Nat) :
    run n {} lines = .ok { program := f.program, rank := 3 } := by
  obtain ⟨hheader, htext, hmodifications, hfinish⟩ := h
  rename_i header finish text modifications
  obtain ⟨n₁, rank₁, hrank₁, hrun₁⟩ := run_section .text (fun p t => p.addText t.code) nofun
    (fun _ _ => rfl) TextRecord.Spelled.letter (fun ht _ => accept_text_iff.mpr ⟨_, ht, rfl⟩)
    htext (p := { header := some f.header }) rfl (Nat.zero_le 1) (n + 1)
    (modifications ++ [finish])
  rw [foldl_addText] at hrun₁
  obtain ⟨n₂, rank₂, hrank₂, hrun₂⟩ := run_section .modification
    (fun p m => p.addModifications [m]) nofun (fun _ _ => rfl) Modification.Spelled.letter
    (fun hm _ => accept_modification_iff.mpr ⟨_, hm, rfl⟩) hmodifications
    (p := { header := some f.header, text := f.text }) rfl (Nat.le_succ_of_le hrank₁) n₁ [finish]
  rw [foldl_addModifications] at hrun₂
  obtain ⟨cs, rfl⟩ := hheader.letter
  obtain ⟨ds, rfl⟩ := hfinish.letter
  rw [run_accept .header rfl (Nat.le_refl 0) (fun _ => rfl)
    (accept_header_iff.mpr ⟨_, hheader, rfl⟩)]
  refine hrun₁.trans (hrun₂.trans ?_)
  exact run_accept .finish rfl (Nat.le_succ_of_le hrank₂) nofun
    (accept_finish_iff.mpr ⟨_, hfinish, rfl⟩) n₂ []

end ObjectFile.Reader

namespace ObjectFile

/-- The lines of a text that are not empty. -/
def filled (t : Text) : List Text := (Text.recordLines t).filter (· ≠ [])

/-- A text is read as a file exactly if its lines, the empty ones left out, are those of that
    file. -/
theorem parse_eq_ok_iff {t : Text} {f : ObjectFile} :
    parse t = .ok f ↔ f.Spelled (filled t) := by
  constructor
  · intro h
    obtain ⟨r, hrun, hof⟩ := bind_eq_ok h
    have hempty := ObjectProgram.Spelled.intro (p := {}) .nil .nil .nil .nil
    have htook : ({} : Reader).Took [] := ⟨hempty, fun _ => rfl, fun _ => rfl⟩
    have hspelled := (htook.run hrun).spelled
    rw [ofProgram_eq_ok_iff.mp hof] at hspelled
    exact spelled_of_program hspelled
  · intro h
    unfold parse
    rw [Reader.run_filter (Reader.run_spelled h 1), ok_bind]
    exact ofProgram_eq_ok_iff.mpr rfl

end ObjectFile

/-! ## Object code -/

theorem Text.isAsciiBlank_of_isDigit {c : Char} (h : Hex.isDigit c = true) :
    isAsciiBlank c = false := by
  have hrange := Hex.range_of_isDigit h
  rw [← Bool.not_eq_true]
  intro hb
  simp only [isAsciiBlank, inRanges, List.any_cons, List.any_nil, Bool.or_false, Bool.or_eq_true,
    Bool.and_eq_true, decide_eq_true_eq] at hb
  omega

namespace Hex

/-- The bytes that digits denote, two digits a byte. -/
def decoded : Text → List UInt8
  | high :: low :: rest => UInt8.ofNat (value [high, low]) :: decoded rest
  | _ => []

/-- There is a byte for each pair of digits. -/
theorem length_decoded {t : Text} (he : t.length % 2 = 0) :
    t.length = 2 * (decoded t).length := by
  fun_induction decoded t with
  | case1 high low rest ih =>
    rw [List.length_cons, List.length_cons] at he
    have hrest := ih (by omega)
    rw [List.length_cons, List.length_cons, List.length_cons]
    omega
  | case2 t hshort =>
    match t, hshort, he with
    | [], _, _ => rfl
    | [_], _, he => cases he
    | high :: low :: rest, hshort, _ => exact absurd rfl (hshort high low rest)

/-- Digits in pairs are read as the bytes that they denote. -/
theorem bytesFrom_digits {t : Text} (he : t.length % 2 = 0) (hd : ∀ c ∈ t, isDigit c = true)
    (position : Nat) : bytesFrom position t = .ok (decoded t) := by
  fun_induction bytesFrom position t with
  | case1 position => rfl
  | case2 position c cs hb ih =>
    rw [Text.isAsciiBlank_of_isDigit (hd c List.mem_cons_self)] at hb
    cases hb
  | case3 position c cs hb hc =>
    have hdigit := hd c List.mem_cons_self
    rw [isDigit, hc] at hdigit
    cases hdigit
  | case4 position c hb high hc => cases he
  | case5 position c hb high d ds hc hnone =>
    have hdigit := hd d (.tail _ List.mem_cons_self)
    rw [isDigit, hnone] at hdigit
    cases hdigit
  | case6 position c hb high d ds hc low hlow ih =>
    have heven : ds.length % 2 = 0 := by
      rw [List.length_cons, List.length_cons] at he
      omega
    have hvalue : 16 * high + low = value [c, d] := by
      have hread : valueFrom? 0 [c, d] = some (16 * (16 * 0 + high) + low) := by
        rw [valueFrom?, hc, Option.bind_some, valueFrom?, hlow, Option.bind_some, valueFrom?]
      have := (valueFrom?_eq_some_iff.mp hread).2
      omega
    rw [ih heven fun x hx => hd x (.tail _ (.tail _ hx)), hvalue]
    rfl

theorem bytes_digits {t : Text} (he : t.length % 2 = 0) (hd : ∀ c ∈ t, isDigit c = true) :
    bytes t = .ok (decoded t) := by
  have hascii : (t.findIdx? fun c => decide (128 ≤ c.toNat)) = none := by
    rw [List.findIdx?_eq_none_iff]
    intro c hc
    have hrange := range_of_isDigit (hd c hc)
    simp only [decide_eq_false_iff_not]
    omega
  unfold bytes
  rw [hascii]
  exact bytesFrom_digits he hd 0

end Hex

theorem mapM_eq_ok {ε α β : Type} {f : α → Except ε β} {g : α → β} {xs : List α}
    (h : ∀ x ∈ xs, f x = .ok (g x)) : xs.mapM f = .ok (xs.map g) := by
  induction xs with
  | nil => rfl
  | cons x xs ih =>
    rw [List.forall_mem_cons] at h
    rw [List.mapM_cons, h.1, ih h.2]
    rfl

namespace ObjectFile

/-- The text records of a file hold digits in pairs. -/
theorem Spelled.text_digits {lines : List Text} {f : ObjectFile} (h : f.Spelled lines) :
    ∀ r ∈ f.text, r.code.length % 2 = 0 ∧ ∀ c ∈ r.code, Hex.isDigit c = true := by
  intro r hr
  obtain ⟨-, htext, -, -⟩ := h
  obtain ⟨line, -, heven, hcode⟩ := exists_line htext hr
  exact ⟨heven, fun c hc => Hex.isDigit_iff.mpr (hcode c hc)⟩

theorem objectCode_digits {f : ObjectFile}
    (h : ∀ r ∈ f.text, r.code.length % 2 = 0 ∧ ∀ c ∈ r.code, Hex.isDigit c = true) :
    f.objectCode = .ok (f.text.flatMap fun r => Hex.decoded r.code) := by
  have hbytes : ∀ r ∈ f.text, r.bytes = .ok (Hex.decoded r.code) :=
    fun r hr => Hex.bytes_digits (h r hr).1 (h r hr).2
  unfold objectCode
  rw [mapM_eq_ok hbytes]
  rfl

/-- An object file is read exactly if its lines, the empty ones left out, follow the grammar: a
    header, text records, modification records and an end record. What is read are the fields of
    these lines in their order, and its object code is what the text records denote, one behind
    the other. Any other text is refused. -/
theorem parse_accepts_spelled (t : Text) :
    (∀ f, parse t = .ok f ↔ f.Spelled (filled t)) ∧
    (∀ f, parse t = .ok f → f.objectCode = .ok (f.text.flatMap fun r => Hex.decoded r.code)) ∧
    ((∃ fault, parse t = .error fault) ↔ ¬ ∃ f : ObjectFile, f.Spelled (filled t)) := by
  refine ⟨fun f => parse_eq_ok_iff, fun f h => ?_, ?_⟩
  · exact objectCode_digits (parse_eq_ok_iff.mp h).text_digits
  · simp only [← parse_eq_ok_iff]
    cases parse t <;> simp

/-- Digits of both cases, an empty line, a record without code, and three kinds of line break. -/
def mixed : Text := "HA\tB   00100000000a\r\n\nT\x0cT4c00fF\nM00100104+X Y\nE00aBcD"

theorem parse_accepts_spelled_mixed : ∃ f, parse mixed = .ok f ∧ f.Spelled (filled mixed) ∧
    f.objectCode = .ok (f.text.flatMap fun r => Hex.decoded r.code) ∧
    f.objectCode = .ok [0x4C, 0x00, 0xFF] := by
  obtain ⟨hread, hcode, -⟩ := parse_accepts_spelled mixed
  have hparse : parse mixed = .ok
      { header := { name := "A\tB", load := 0x1000, length := 10 }
        text := [{ code := [] }, { code := "4c00fF" }]
        modifications := [{ start := 0x1001, halfBytes := 4, symbol := "X Y" }]
        finish := { entry := 0xABCD } } := by
    rfl
  exact ⟨_, hparse, (hread _).mp hparse, hcode _ hparse, rfl⟩

end ObjectFile

end TwoPass
