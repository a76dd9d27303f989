import Mathlib.Data.Bool.AllAny
import TwoPass.Proofs.Grammar
import TwoPass.Proofs.Statements

/-
  `BYTE` constants reach the object program byte for byte. A `ByteLine` has a literal behind the
  directive, and whatever stands in its body and behind it, the literal is the operand
  (`ByteLine.read_eq`). Its code denotes the bytes of the literal (`bytes_literalCode`), so the
  statement `Stores` them: the counter moves on by their number, and the second pass adds a text
  record that denotes them. Only the length of the operand and a character outside ASCII stand in
  the way (`byte_literal_exact`).
-/

namespace TwoPass

open Source

/-! ## The bytes of a literal -/

namespace Hex

theorem decoded_digits {n : Nat} (hn : n < 256) (rest : Text) :
    decoded (digits 2 n ++ rest) = UInt8.ofNat n :: decoded rest := by
  have hvalue : value (digits 2 n) = n := (value_digits 2 n).trans (Nat.mod_eq_of_lt hn)
  have hdigits : digits 2 n = [digit (n / 16 % 16), digit (n % 16)] := rfl
  rw [hdigits] at hvalue ⊢
  rw [List.cons_append, List.cons_append, decoded, hvalue]
  rfl

/-- Two digits for each character denote the codes of the characters. -/
theorem decoded_characters {body : Text} (h : ∀ c ∈ body, c.toNat < 128) :
    decoded (body.flatMap fun c => digits 2 c.toNat) = body.map fun c => UInt8.ofNat c.toNat := by
  induction body with
  | nil => rfl
  | cons c cs ih =>
    rw [List.forall_mem_cons] at h
    rw [List.flatMap_cons, decoded_digits (by omega), ih h.2]
    rfl

end Hex

namespace ByteLiteral

/-- The bytes that a literal denotes: the codes of its characters, or the values of its digits. -/
def bytes : ByteLiteral → List UInt8
  | .characters body => body.map fun c => UInt8.ofNat c.toNat
  | .hex body => Hex.decoded body

theorem length_bytes {l : ByteLiteral} (hw : l.WellFormed) : l.bytes.length = l.size := by
  cases l with
  | characters body => exact List.length_map _
  | hex body =>
    have hlength := Hex.length_decoded hw.1
    dsimp only [bytes, size]
    omega

/-- The code of a literal denotes its bytes. -/
theorem bytes_literalCode {l : ByteLiteral} (hw : l.WellFormed) (ha : l.IsAscii) :
    Hex.bytes (Code.literalCode l.text) = .ok l.bytes := by
  have heven : (Code.literalCode l.text).length % 2 = 0 := by
    rw [Code.length_literalCode hw]
    omega
  rw [Hex.bytes_digits heven fun c hc => Code.isDigit_of_mem_literalCode hw hc,
    Code.literalCode_text]
  cases l with
  | characters body => rw [Hex.decoded_characters ha]; rfl
  | hex body => rfl

end ByteLiteral

theorem Operation.constantSize_text {l : ByteLiteral} (hw : l.WellFormed) :
    constantSize (some l.text) = .ok l.size := by
  rw [constantSize, if_pos l.announced_text, ByteLiteral.read_eq_ok_iff.mpr ⟨rfl, hw⟩]
  rfl

theorem Code.byte_notAscii {l : ByteLiteral} (hw : l.WellFormed) (ha : ¬ l.IsAscii) :
    Code.byte l.text = .error (.notAscii l.text) := by
  have hcode : l.code? = none := by
    rw [Option.eq_none_iff_forall_ne_some]
    exact fun code hcode => ha (ByteLiteral.code?_eq_some_iff.mp hcode).1
  unfold Code.byte
  rw [ByteLiteral.read_eq_ok_iff.mpr ⟨rfl, hw⟩]
  dsimp only
  rw [hcode]

/-! ## Statements that store bytes -/

/-- A statement that puts bytes into the object program: the counter moves on by their number, and
    the statement has a code that denotes them, which the second pass adds to the text records. -/
structure Statement.Stores (st : Statement) (kind : LineKind) (bytes : List UInt8) : Prop where
  moves : ∀ counter, st.next kind counter = .ok (counter + bytes.length)
  stores : ∃ code, Hex.bytes code = .ok bytes ∧ ∀ options place symbols,
    st.encode options place symbols = .ok (code, []) ∧
    ∀ g : Generation, g.checkPhase symbols place st = .ok () →
      ∃ g', g.emit options symbols place kind st = .ok g' ∧
        g'.counter = g.counter + bytes.length ∧
        g'.program.text = g.program.text ++ (if code = [] then [] else [⟨code⟩])

namespace Statement

variable {st : Statement} {l : ByteLiteral}

theorem encode_byte (ho : st.operation = .directive .byte) (options : Options) (place : Location)
    (symbols : SymbolTable) :
    st.encode options place symbols = st.constantCode .byte Code.byte := by
  simp only [encode, ho, constantCode]

theorem next_literal (ho : st.operation = .directive .byte) (hop : st.operand = some l.text)
    (hw : l.WellFormed) (kind : LineKind) (counter : Int) :
    st.next kind counter = .ok (counter + l.size) := by
  have hsize : st.operation.size st.operand = .ok l.size := by
    rw [ho, hop]
    exact Operation.constantSize_text hw
  have hstart : st.operation ≠ .directive .start := by rw [ho]; decide
  rw [next_sizable hstart ((size_isOk_iff hstart).mp ⟨_, hsize⟩), bytes_of_size hsize]

theorem stores_literal (ho : st.operation = .directive .byte) (hop : st.operand = some l.text)
    (hw : l.WellFormed) (ha : l.IsAscii) (hl : l.text.length ≤ 60) (kind : LineKind) :
    st.Stores kind l.bytes := by
  have hnext : ∀ counter, st.next kind counter = .ok (counter + l.bytes.length) := by
    intro counter
    rw [next_literal ho hop hw, ByteLiteral.length_bytes hw]
  refine ⟨hnext, Code.literalCode l.text, ByteLiteral.bytes_literalCode hw ha, ?_⟩
  intro options place symbols
  have hcode : st.encode options place symbols = .ok (Code.literalCode l.text, []) := by
    rw [encode_byte ho, constantCode, constantOperand_eq_ok_iff.mpr ⟨hop, hl⟩, ok_bind,
      Code.byte_eq_ok_iff.mpr ⟨⟨l, rfl, hw, ha⟩, rfl⟩]
    rfl
  refine ⟨hcode, fun g hphase => ?_⟩
  have hrelocation : st.relocation? = none := by rw [relocation?, ho]
  unfold Generation.emit
  rw [hphase, hcode, hrelocation]
  simp only [Generation.stop, ok_bind, Generation.list, hnext]
  refine ⟨_, rfl, rfl, ?_⟩
  split <;> simp [ObjectProgram.addText, ObjectProgram.addModifications]

theorem encode_long (ho : st.operation = .directive .byte) (hop : st.operand = some l.text)
    (hl : 60 < l.text.length) (options : Options) (place : Location) (symbols : SymbolTable) :
    st.encode options place symbols = .error (st.fault (.operandTooLong l.text 60)) := by
  rw [encode_byte ho, constantCode, constantOperand, hop]
  dsimp only
  rw [if_pos (by exact hl)]
  rfl

theorem encode_notAscii (ho : st.operation = .directive .byte) (hop : st.operand = some l.text)
    (hw : l.WellFormed) (ha : ¬ l.IsAscii) (hl : l.text.length ≤ 60) (options : Options)
    (place : Location) (symbols : SymbolTable) :
    st.encode options place symbols =
      .error { cause := .notAscii l.text, location := st.location } := by
  rw [encode_byte ho, constantCode, constantOperand_eq_ok_iff.mpr ⟨hop, hl⟩, ok_bind,
    Code.byte_notAscii hw ha]
  rfl

end Statement

/-! ## Lines with a literal -/

namespace Source

/-- One or more characters of white space. -/
def Gap (t : Text) : Prop := t ≠ [] ∧ ∀ c ∈ t, Text.isBlank c = true

/-- A label that may stand in column one: no white space, no quote, and no remark. -/
structure IsLabel (t : Text) : Prop where
  nonempty : t ≠ []
  plain : ∀ c ∈ t, Text.isBlank c = false ∧ c ≠ quote
  noRemark : t.head? ≠ some '#'

/-- A line with a space or tab or a label in column one, then `BYTE`, a literal and any text. -/
inductive ByteLine (literal : Text) : Option Text → Text → Prop
  | indented {indent gap : Text} (rest : Text)
      (hfirst : indent.head? = some ' ' ∨ indent.head? = some '\t') (hindent : Gap indent)
      (hgap : Gap gap) :
      ByteLine literal none (indent ++ ("BYTE".toList ++ (gap ++ (literal ++ rest))))
  | labelled {label between gap : Text} (rest : Text) (hlabel : IsLabel label)
      (hbetween : Gap between) (hgap : Gap gap) :
      ByteLine literal (some label)
        (label ++ (between ++ ("BYTE".toList ++ (gap ++ (literal ++ rest)))))

theorem Gap.head? {gap : Text} (h : Gap gap) (t : Text) :
    ∀ c, (gap ++ t).head? = some c → Text.isBlank c = true := by
  obtain ⟨d, ds, rfl⟩ := List.exists_cons_of_ne_nil h.1
  rintro c hc
  rw [← Option.some.inj hc]
  exact h.2 d List.mem_cons_self

/-- Before white space, a run without a quote is a field. -/
theorem fields_run_gap {run gap : Text} (hne : run ≠ [])
    (hrun : ∀ c ∈ run, Text.isBlank c = false ∧ c ≠ quote) (hgap : Gap gap) (t : Text) :
    fields (run ++ (gap ++ t)) = run :: fields t := by
  obtain ⟨c, cs, rfl⟩ := List.exists_cons_of_ne_nil hne
  have hfirst : Text.isBlank c = false := (hrun c List.mem_cons_self).1
  rw [fields_append (field_run hne hrun (hgap.head? t)) ⟨c, rfl, hfirst⟩, fields_blank hgap.2]

theorem fields_byte {literal gap : Text} (hgap : Gap gap)
    (hliteral : ∀ rest, fields (literal ++ rest) = literal :: fields rest) (rest : Text) :
    fields ("BYTE".toList ++ (gap ++ (literal ++ rest))) =
      "BYTE".toList :: literal :: fields rest := by
  have hplain : ∀ c ∈ "BYTE".toList, Text.isBlank c = false ∧ c ≠ quote :=
    List.all_iff_forall_prop.mp (by decide)
  rw [fields_run_gap (by decide) hplain hgap, hliteral]

theorem fields_literal {kind : Char} {body : Text} (hkind : kind = 'C' ∨ kind = 'X')
    (hbody : quote ∉ body) (rest : Text) :
    fields (kind :: quote :: (body ++ [quote]) ++ rest) =
      (kind :: quote :: (body ++ [quote])) :: fields rest := by
  refine fields_append (field_literal hkind hbody rest) ⟨kind, rfl, ?_⟩
  rcases hkind with rfl | rfl <;> decide

/-- A line with a field is no remark, unless it begins as one. -/
theorem not_isRemark {raw first : Text} {rest : List Text} (hf : fields raw = first :: rest)
    (hhead : raw.head? ≠ some '#') : ¬ IsRemark raw := by
  rintro (hremark | hblank)
  · exact hhead hremark
  · have hnone := fields_blank hblank []
    rw [List.append_nil, hf] at hnone
    cases hnone

variable {raw first name : Text} {rest operands : List Text} (location : Option Location)

theorem read_indented (hfirst : raw.head? = some ' ' ∨ raw.head? = some '\t')
    (hf : fields raw = first :: rest) :
    Statement.read (LineKind.of raw) raw location = .ok (some
      { label := none, operation := Operation.ofName first, operand := rest.head?, location,
        text := Text.dropLineEnd raw }) := by
  have hhead : raw.head? ≠ some '#' := by
    rcases hfirst with h | h <;> rw [h] <;> decide
  have hremark : ¬ IsRemark raw := not_isRemark hf hhead
  refine Statement.read_unlabelled location (mt kind_eq_remark_iff.mp hremark) hf ?_
  rintro ⟨hlabelled, -⟩
  obtain ⟨-, hspace, htab⟩ := kind_eq_labelled_iff.mp hlabelled
  exact hfirst.elim hspace htab

/-- Before a keyword, a field in column one is a label, keyword or not. -/
theorem read_before_keyword {c : Char} (hfirst : raw.head? = some c)
    (hblank : Text.isBlank c = false) (hremark : c ≠ '#')
    (hf : fields raw = first :: name :: operands) (hname : Keyword name) :
    Statement.read (LineKind.of raw) raw location = .ok (some
      { label := some first, operation := Operation.ofName name, operand := operands.head?,
        location, text := Text.dropLineEnd raw }) := by
  have hraw : ¬ IsRemark raw :=
    not_isRemark hf (by rw [hfirst]; exact mt Option.some.inj hremark)
  have hcolumn : InColumnOne raw := by
    unfold InColumnOne
    rw [hfirst]
    constructor
    · rintro ⟨⟩
      cases hblank
    · rintro ⟨⟩
      cases hblank
  exact Statement.read_labelled location (kind_eq_labelled_iff.mpr ⟨hraw, hcolumn⟩) hf
    (Statement.hasLabel_iff.mpr (.inr ⟨name, rfl, hname⟩))

/-- Whatever a literal holds and whatever follows it, it is the operand of its line. -/
theorem ByteLine.read_eq {literal : Text} {label : Option Text}
    (h : ByteLine literal label raw)
    (hliteral : ∀ rest, fields (literal ++ rest) = literal :: fields rest) :
    Statement.read (LineKind.of raw) raw location = .ok (some
      { label, operation := .directive .byte, operand := some literal, location,
        text := Text.dropLineEnd raw }) := by
  have hname : Operation.ofName "BYTE".toList = .directive .byte := by decide
  cases h with
  | indented rest hfirst hindent hgap =>
    have hf := (fields_blank hindent.2 _).trans (fields_byte hgap hliteral rest)
    rw [← List.head?_append_of_ne_nil _ hindent.1] at hfirst
    rw [read_indented location hfirst hf, hname]
    rfl
  | @labelled label between gap rest hlabel hbetween hgap =>
    have hf := fields_run_gap hlabel.nonempty hlabel.plain hbetween
      ("BYTE".toList ++ (gap ++ (literal ++ rest)))
    rw [fields_byte hgap hliteral] at hf
    obtain ⟨c, cs, rfl⟩ := List.exists_cons_of_ne_nil hlabel.nonempty
    have hblank := (hlabel.plain c List.mem_cons_self).1
    have hremark : c ≠ '#' := fun hc => hlabel.noRemark (congrArg some hc)
    rw [read_before_keyword location rfl hblank hremark hf (.inl ⟨.byte, rfl⟩), hname]
    rfl

end Source

/-- A literal reaches the object program byte for byte. A line whose directive is `BYTE` and whose
    literal has no quote in its body is read with that literal for its operand, whatever follows.
    Up to 57 characters of ASCII store their codes; more characters are refused for their number,
    and others for what they are. Up to 56 hex digits in pairs store the bytes they denote. -/
theorem byte_literal_exact {body : Text} (hquote : quote ∉ body) (label : Option Text) (raw : Text)
    (location : Option Location) :
    (ByteLine (ByteLiteral.characters body).text label raw →
      ∃ st, Statement.read (LineKind.of raw) raw location = .ok (some st) ∧
        st.label = label ∧ st.operation = .directive .byte ∧
        st.operand = some (ByteLiteral.characters body).text ∧
        ((∀ c ∈ body, c.toNat < 128) → body.length ≤ 57 →
          st.Stores (LineKind.of raw) (body.map fun c => UInt8.ofNat c.toNat)) ∧
        (57 < body.length → ∀ options place symbols, st.encode options place symbols =
          .error (st.fault (.operandTooLong (ByteLiteral.characters body).text 60))) ∧
        ((¬ ∀ c ∈ body, c.toNat < 128) → body.length ≤ 57 → ∀ options place symbols,
          st.encode options place symbols =
            .error { cause := .notAscii (ByteLiteral.characters body).text, location })) ∧
    (ByteLine (ByteLiteral.hex body).text label raw →
      (∀ c ∈ body, c ∈ Hex.alphabet) → body.length % 2 = 0 → body.length ≤ 56 →
      ∃ st, Statement.read (LineKind.of raw) raw location = .ok (some st) ∧
        st.label = label ∧ st.operation = .directive .byte ∧
        st.operand = some (ByteLiteral.hex body).text ∧
        (Hex.decoded body).length = body.length / 2 ∧
        st.Stores (LineKind.of raw) (Hex.decoded body)) := by
  constructor
  · intro hline
    have hlength : (ByteLiteral.characters body).text.length = body.length + 3 := by
      simp [ByteLiteral.text]
    refine ⟨_, hline.read_eq location (fields_literal (.inl rfl) hquote), rfl, rfl, rfl, ?_, ?_, ?_⟩
    · intro hascii hshort
      exact Statement.stores_literal (l := .characters body) rfl rfl trivial hascii (by omega) _
    · intro hlong options place symbols
      exact Statement.encode_long rfl rfl (by omega) options place symbols
    · intro hascii hshort options place symbols
      exact Statement.encode_notAscii (l := .characters body) rfl rfl trivial hascii (by omega)
        options place symbols
  · intro hline hdigits heven hshort
    have hlength : (ByteLiteral.hex body).text.length = body.length + 3 := by
      simp [ByteLiteral.text]
    have hwell : (ByteLiteral.hex body).WellFormed :=
      ⟨heven, fun c hc => Hex.isDigit_iff.mpr (hdigits c hc)⟩
    have hbytes := ByteLiteral.length_bytes hwell
    refine ⟨_, hline.read_eq location (fields_literal (.inr rfl) hquote), rfl, rfl, rfl, hbytes, ?_⟩
    exact Statement.stores_literal rfl rfl hwell trivial (by omega) _

/-- A keyword for a label, a body that looks like a line of its own, and text right behind it; and
    digits of both cases. -/
theorem byte_literal_exact_keywords :
    (quote ∉ "A #\tRSUB".toList ∧ ∃ st,
      Statement.read .labelled "LDA\tBYTE  C'A #\tRSUB'END\r\n" none = .ok (some st) ∧
      st.label = some "LDA".toList ∧ st.operand = some "C'A #\tRSUB'".toList ∧
      st.Stores .labelled [0x41, 0x20, 0x23, 0x09, 0x52, 0x53, 0x55, 0x42]) ∧
    (quote ∉ "0aF1".toList ∧ ∃ st,
      Statement.read .indented "\tBYTE\u2003X'0aF1'," none = .ok (some st) ∧
      st.label = none ∧ st.operand = some "X'0aF1'".toList ∧
      st.Stores .indented [0x0A, 0xF1]) := by
  have hquote : quote ∉ "A #\tRSUB".toList := by decide
  have hquote' : quote ∉ "0aF1".toList := by decide
  have hline : ByteLine (ByteLiteral.characters "A #\tRSUB").text (some "LDA".toList)
      "LDA\tBYTE  C'A #\tRSUB'END\r\n".toList := by
    refine @ByteLine.labelled _ "LDA".toList "\t".toList "  ".toList "END\r\n".toList ?_ ?_ ?_
    · exact ⟨by decide, List.all_iff_forall_prop.mp (by decide), by decide⟩
    · exact ⟨by decide, List.all_iff_forall_prop.mp (by decide)⟩
    · exact ⟨by decide, List.all_iff_forall_prop.mp (by decide)⟩
  have hline' : ByteLine (ByteLiteral.hex "0aF1").text none "\tBYTE\u2003X'0aF1',".toList := by
    refine @ByteLine.indented _ "\t".toList "\u2003".toList ",".toList ?_ ?_ ?_
    · exact .inr rfl
    · exact ⟨by decide, List.all_iff_forall_prop.mp (by decide)⟩
    · exact ⟨by decide, List.all_iff_forall_prop.mp (by decide)⟩
  have hascii : ∀ c ∈ "A #\tRSUB".toList, c.toNat < 128 :=
    List.all_iff_forall_prop.mp (by decide)
  have hdigits : ∀ c ∈ "0aF1".toList, c ∈ Hex.alphabet := List.all_iff_forall_prop.mp (by decide)
  obtain ⟨st, hread, hlabel, -, hoperand, hstores, -⟩ :=
    (byte_literal_exact hquote _ _ none).1 hline
  obtain ⟨st', hread', hlabel', -, hoperand', -, hstores'⟩ :=
    (byte_literal_exact hquote' _ _ none).2 hline' hdigits (by decide) (by decide)
  exact ⟨⟨hquote, st, hread, hlabel, hoperand, hstores hascii (by decide)⟩,
    hquote', st', hread', hlabel', hoperand', hstores'⟩

end TwoPass
