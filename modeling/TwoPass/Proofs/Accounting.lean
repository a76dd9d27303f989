import TwoPass.Proofs.Bounds
import TwoPass.Proofs.Records

/-
  Where the bytes of a program go. The first pass counts the size of a statement from its operand,
  the second emits its code, and neither looks at the other. `Statement.bytes_eq` says that they
  agree: a size is the bytes of the code and, for a directive without code, the bytes it reserves.
  Summed over the lines behind START this gives each address in the listing as the load address,
  the object code emitted up to there and the bytes reserved up to there (`address_accounting`).
-/

namespace TwoPass

open Source Object

/-! ## Sizes and codes -/

namespace Statement

/-- The bytes that a statement reserves and that no code stands for. -/
def reserved (st : Statement) : Nat :=
  match st.operation with
  | .directive .reserveBytes => (Code.wordValue (st.operand.getD [])).toNat
  | .directive .reserveWords => 3 * (Code.wordValue (st.operand.getD [])).toNat
  | .directive .reserveRegister => 3
  | .directive .exports => 3
  | _ => 0

variable {address : Text → Nat} {st : Statement}

/-- The count of a reservation is the value of its operand. -/
theorem reservedCount_eq (h : ∃ t n, st.operand = some t ∧ Decimal.Denotes t n ∧ 0 ≤ n)
    (d : Directive) : Operation.reservedCount d st.operand =
      .ok (Code.wordValue (st.operand.getD [])).toNat := by
  obtain ⟨t, n, hop, hd, hn⟩ := h
  rw [Operation.reservedCount_eq_ok_iff]
  refine ⟨t, hop, ?_⟩
  rwa [hop, Option.getD_some, Code.wordValue_of_denotes hd, Int.toNat_of_nonneg hn]

/-- The size that is counted for a statement is that of its code and of what it reserves. -/
theorem bytes_eq (ha : ∀ name, address name < 16 ^ 4) (he : st.Encodable) (hs : st.Sizable)
    (hstart : st.operation ≠ .directive .start) :
    2 * st.bytes = (st.code address).length + 2 * st.reserved := by
  cases ho : st.operation with
  | unknown name =>
    rw [Encodable, ho] at he
    exact absurd he id
  | instruction m =>
    have hbytes : st.bytes = 3 := bytes_of_size (by rw [ho]; rfl)
    have hreserved : st.reserved = 0 := by rw [reserved, ho]
    rw [code_instruction_digits ho ha, List.length_append, Hex.length_digits, Hex.length_digits,
      hbytes, hreserved]
  | directive d =>
    cases d with
    | start => exact absurd ho hstart
    | word =>
      have hbytes : st.bytes = 3 := bytes_of_size (by rw [ho]; rfl)
      have hcode : (st.code address).length = 6 := by
        rw [code, ho]
        exact Hex.length_digits ..
      have hreserved : st.reserved = 0 := by rw [reserved, ho]
      omega
    | byte =>
      rw [Encodable, ho] at he
      obtain ⟨t, hop, -, l, rfl, hw, -⟩ := he
      have hread := ByteLiteral.read_eq_ok_iff.mpr ⟨rfl, hw⟩
      have hbytes : st.bytes = l.size := by
        apply bytes_of_size
        rw [ho, hop]
        simp only [Operation.size, Operation.constantSize, ByteLiteral.announced_text, if_true,
          hread]
        rfl
      have hcode : (st.code address).length = 2 * l.size := by
        rw [code, ho, hop]
        exact Code.length_literalCode hw
      have hreserved : st.reserved = 0 := by rw [reserved, ho]
      omega
    | reserveBytes =>
      rw [Sizable, ho] at hs
      have hbytes := bytes_of_size (by rw [ho]; exact reservedCount_eq hs .reserveBytes)
      have hcode : st.code address = [] := by rw [code, ho]
      rw [hbytes, hcode, reserved, ho, List.length_nil, Nat.zero_add]
    | reserveWords =>
      rw [Sizable, ho] at hs
      have hbytes : st.bytes = 3 * (Code.wordValue (st.operand.getD [])).toNat := by
        apply bytes_of_size
        rw [ho, Operation.size, reservedCount_eq hs]
        rfl
      have hcode : st.code address = [] := by rw [code, ho]
      rw [hbytes, hcode, reserved, ho, List.length_nil, Nat.zero_add]
    | _ =>
      have hbytes : st.bytes = _ := bytes_of_size (by rw [ho]; rfl)
      have hcode : st.code address = [] := by rw [code, ho]
      rw [hbytes, hcode, reserved, ho]
      rfl

end Statement

namespace Source

/-- The bytes that lines reserve. -/
def reserved (lines : List Text) : Nat :=
  ((lines.filterMap statement?).map Statement.reserved).sum

/-- A line whose statement, if it has one, is counted and encoded alike. -/
structure Balanced (raw : Text) : Prop where
  plain : isStart raw = false
  sizable : ∀ st, statement? raw = some st → st.Sizable
  encodable : ∀ st, statement? raw = some st → st.Encodable

/-- The bytes of lines are those of their codes and those that they reserve. -/
theorem extent_eq {address : Text → Nat} (ha : ∀ name, address name < 16 ^ 4) {lines : List Text}
    (h : ∀ raw ∈ lines, Balanced raw) :
    2 * extent lines = (codes address lines).flatten.length + 2 * reserved lines := by
  unfold extent codes reserved
  -- Codes that are empty add no digits, so they can be left in.
  rw [List.flatten_filter_ne_nil]
  induction lines with
  | nil => rfl
  | cons raw rest ih =>
    rw [List.forall_mem_cons] at h
    obtain ⟨hraw, hrest⟩ := h
    have hsum := ih hrest
    rw [List.filterMap_cons]
    cases hst : statement? raw with
    | none => exact hsum
    | some st =>
      have hplain := hraw.plain
      rw [isStart, holds_of_statement hst, decide_eq_false_iff_not] at hplain
      have hone := Statement.bytes_eq ha (hraw.encodable st hst) (hraw.sizable st hst) hplain
      simp only [List.map_cons, List.sum_cons, List.flatten_cons, List.length_append]
      omega

/-- A line of an accepted source that stands before END and is no START. -/
theorem Admissible.balanced {options : Options} {lines : List Text} (h : Admissible options lines)
    {raw : Text} (hraw : raw ∈ beforeEnd lines) (hplain : isStart raw = false) : Balanced raw := by
  have hmem : raw ∈ lines := (List.takeWhile_sublist _).subset hraw
  exact ⟨hplain, ((fits_iff.mp h.fits).1 raw hmem).sizable,
    (assembled_iff.mp h.assembled).2.2 raw hraw⟩

end Source

/-! ## The listing -/

/-- The text records of listed lines: the codes of those that have one. -/
def listedText (entries : List ListingEntry) : List TextRecord :=
  ((entries.map ListingEntry.code).filter (· ≠ [])).map TextRecord.mk

namespace Source

/-- The code of a line, empty if it has none. -/
def lineCode (address : Text → Nat) (raw : Text) : Text :=
  ((statement? raw).map (Statement.code address)).getD []

theorem entry_code (address : Text → Nat) (c : Nat) (line : Line) :
    (entry address c line).code = lineCode address line.raw := by
  unfold entry lineCode
  cases statement? line.raw <;> rfl

theorem entriesFrom_code (address : Text → Nat) (c : Nat) (source : List Line) :
    (entriesFrom address c source).map ListingEntry.code =
      (source.map Line.raw).map (lineCode address) := by
  induction source generalizing c with
  | nil => rfl
  | cons line rest ih =>
    rw [entriesFrom, List.map_cons, List.map_cons, List.map_cons, ih, entry_code]

theorem codes_eq_lineCode (address : Text → Nat) (lines : List Text) :
    codes address lines = (lines.map (lineCode address)).filter (· ≠ []) := by
  unfold codes
  induction lines with
  | nil => rfl
  | cons raw rest ih =>
    rw [List.filterMap_cons, List.map_cons, lineCode]
    cases statement? raw with
    | none => exact ih
    | some st =>
      simp only [List.map_cons, List.filter_cons, Option.map_some, Option.getD_some, ih]

namespace Outline

variable {lines : List Text}

/-- What stands behind START and before position `i`. -/
def between {α : Type} (o : Outline lines) (items : List α) (i : Nat) : List α :=
  (items.take i).drop (o.opening.length + 1)

/-- `n` is the number of bytes between START and position `i`: those in the text records of the
    lines that are listed there and those that these lines reserve. -/
def Accounts (o : Outline lines) (listing : List ListingEntry) (i : Nat) (n : Int) : Prop :=
  ∃ bytes, ObjectProgram.objectCode { text := listedText (o.between listing i) } = .ok bytes ∧
    n = bytes.length + reserved (o.between lines i)

variable (o : Outline lines) {i : Nat}

theorem between_eq (hle : i ≤ (beforeEnd lines).length) :
    o.between lines i = o.middle.take (i - (o.opening.length + 1)) := by
  have htake : lines.take i = (o.opening ++ o.startLine :: o.middle).take i := by
    conv => lhs; rw [o.cut_beforeEnd]
    rw [List.take_append_of_le_length hle, o.beforeEnd_eq]
  have hdrop : (o.opening ++ o.startLine :: o.middle).drop (o.opening.length + 1) = o.middle := by
    rw [List.drop_append, List.drop_eq_nil_of_le (by omega)]
    simp
  unfold between
  rw [htake, List.drop_take, hdrop]

/-- There is no second START up to END. -/
theorem isStart_behind (hi : o.opening.length < i) (hle : i ≤ (beforeEnd lines).length)
    {raw : Text} (hraw : lines[i]? = some raw) : Source.isStart raw = false := by
  have hbehind : o.between lines ((beforeEnd lines).length + 1) = o.middle ++ [o.endLine] := by
    unfold between
    rw [o.take_end, o.beforeEnd_eq, List.append_assoc, List.drop_append,
      List.drop_eq_nil_of_le (by omega)]
    simp
  have hget : (o.between lines ((beforeEnd lines).length + 1))[i - (o.opening.length + 1)]? =
      some raw := by
    unfold between
    rw [List.getElem?_drop, Nat.add_sub_of_le hi, List.getElem?_take, if_pos (by omega), hraw]
  have hmem := List.mem_of_getElem? hget
  rw [hbehind] at hmem
  rcases List.mem_append.mp hmem with hmem | hmem
  · exact (o.plain raw (List.mem_append_right _ hmem)).1
  · rw [List.mem_singleton.mp hmem]
    exact isStart_of_isEnd o.isEnd

/-- An address behind START is the load address and the bytes between the two. -/
theorem addressAt_eq (hi : o.opening.length < i) (hle : i ≤ (beforeEnd lines).length) :
    addressAt lines i = o.load + extent (o.between lines i) := by
  have hstart : ∀ raw ∈ o.between lines i, Source.isStart raw = false := by
    intro raw hraw
    rw [o.between_eq hle] at hraw
    exact (o.plain raw (List.mem_append_right _ (List.mem_of_mem_take hraw))).1
  have hsplit : lines.take i = lines.take (o.opening.length + 1) ++ o.between lines i := by
    have hparts := List.take_append_drop (o.opening.length + 1) (lines.take i)
    have hmin : min (o.opening.length + 1) i = o.opening.length + 1 := by omega
    rw [List.take_take, hmin] at hparts
    exact hparts.symm
  unfold addressAt
  rw [hsplit, countFrom_append, countFrom_eq_extent hstart]
  congr 1
  exact o.addressAt_start

theorem opening_lt : o.opening.length < (beforeEnd lines).length := by
  rw [o.beforeEnd_eq, List.length_append, List.length_cons]
  omega

/-- Lines behind END are counted like those before it. -/
theorem length_eq (h : ∀ raw ∈ o.rest, Source.isStart raw = false) : o.length =
    addressAt lines (beforeEnd lines).length - o.load + extent o.rest := by
  have hend : ∀ raw ∈ o.endLine :: o.rest, Source.isStart raw = false := by
    rw [List.forall_mem_cons]
    exact ⟨isStart_of_isEnd o.isEnd, h⟩
  have hcount : countFrom 0 lines = countFrom 0 (beforeEnd lines) + extent o.rest := by
    conv => lhs; rw [o.cut_beforeEnd]
    rw [countFrom_append, countFrom_eq_extent hend, ← List.singleton_append, extent_append,
      extent_end o.isEnd, Nat.zero_add]
  have haddress : addressAt lines (beforeEnd lines).length = countFrom 0 (beforeEnd lines) := by
    unfold addressAt
    rw [take_beforeEnd]
  unfold length
  omega

end Outline

end Source

section Assembly

variable {options : Options} {file : Text} {lines : List Text} {done : Assembly}

/-- Listed lines have the codes of the lines at their positions. -/
theorem listedText_eq (h : (assemble options file lines).result = .ok done) {k i : Nat}
    (hi : i ≤ (beforeEnd lines).length + 1) :
    listedText (((assemble options file lines).listing.take i).drop k) =
      (codes (labelAddress lines) ((lines.take i).drop k)).map TextRecord.mk := by
  obtain ⟨-, -, -, hlist⟩ := assemble_ok h
  have hmin : min i ((beforeEnd lines).length + 1) = i := by omega
  have hraws : ((upToEnd (numberLines file lines)).map Line.raw).take i = lines.take i := by
    rw [upToEnd_eq_take, numberLines_raw, List.map_take, numberLines_raw, List.take_take, hmin]
  unfold listedText
  rw [List.map_drop, List.map_take, hlist, generated_listing, entriesFrom_code, ← List.map_take,
    ← List.map_drop, hraws, ← codes_eq_lineCode]

/-- The text records of a program are those of its listing. -/
theorem text_eq_listedText (h : (assemble options file lines).result = .ok done)
    (o : Outline lines) : done.program.text = listedText (assemble options file lines).listing := by
  have hlength : (assemble options file lines).listing.length ≤ (beforeEnd lines).length + 1 := by
    obtain ⟨-, -, -, hlist⟩ := assemble_ok h
    rw [hlist, generated_listing, length_entriesFrom, upToEnd_eq_take, numberLines_raw]
    exact List.length_take_le ..
  have hlisted := listedText_eq h (k := 0) (Nat.le_refl ((beforeEnd lines).length + 1))
  rw [List.drop_zero, List.drop_zero, List.take_of_length_le hlength, o.take_end, codes_append,
    codes_end _ o.isEnd, List.append_nil, o.beforeEnd_eq] at hlisted
  rw [program_of_assemble h o, hlisted]
  rfl

theorem accounts_address (hlimit : options.maxAddress ≤ 0x10000)
    (h : (assemble options file lines).result = .ok done) (o : Outline lines) {i : Nat}
    (hi : o.opening.length < i) (hle : i ≤ (beforeEnd lines).length) :
    o.Accounts (assemble options file lines).listing i (addressAt lines i - o.load) := by
  have hadmissible := assemble_isOk_iff_admissible.mp ⟨done, h⟩
  have haddress := labelAddress_lt hadmissible.fits hlimit
  have hbalanced : ∀ raw ∈ o.between lines i, Balanced raw := by
    intro raw hraw
    rw [o.between_eq hle] at hraw
    have hmiddle : raw ∈ o.middle := List.mem_of_mem_take hraw
    refine hadmissible.balanced ?_ (o.plain raw (List.mem_append_right _ hmiddle)).1
    rw [o.beforeEnd_eq]
    exact List.mem_append_right _ (.tail _ hmiddle)
  have htext : listedText (o.between (assemble options file lines).listing i) =
      (codes (labelAddress lines) (o.between lines i)).map TextRecord.mk :=
    listedText_eq h (Nat.le_succ_of_le hle)
  -- Only whole bytes can be read off a record: this is where the limit is needed.
  have hdigits : ∀ r ∈ listedText (o.between (assemble options file lines).listing i),
      r.code.length % 2 = 0 ∧ ∀ c ∈ r.code, Hex.isDigit c = true := by
    intro r hr
    rw [htext] at hr
    obtain ⟨code, hcode, rfl⟩ := List.mem_map.mp hr
    obtain ⟨st, hst, rfl⟩ := List.mem_map.mp (List.mem_filter.mp hcode).1
    obtain ⟨raw, hraw, hst⟩ := List.mem_filterMap.mp hst
    have hencodable := (hbalanced raw hraw).encodable st hst
    exact ⟨(Statement.code_bytes haddress hencodable).1,
      fun c => Statement.isDigit_of_mem_code hencodable⟩
  obtain ⟨bytes, hbytes, hsum⟩ := ObjectProgram.objectCode_digits
    (p := { text := listedText (o.between (assemble options file lines).listing i) }) hdigits
  refine ⟨bytes, hbytes, ?_⟩
  have hlength : (codes (labelAddress lines) (o.between lines i)).flatten.length =
      2 * bytes.length := by
    rw [← hsum, List.length_flatten]
    dsimp only
    rw [htext, List.map_map]
    rfl
  have hextent := extent_eq haddress hbalanced
  rw [o.addressAt_eq hi hle]
  omega

/-- Below a limit of `0x10000` the address of every statement behind START, up to END, is the load
    address and the bytes that lie between: the object code of the text records of the statements
    there, and what these reserve. If no statement follows END the length of the program is the
    sum at END. -/
theorem address_accounting (hlimit : options.maxAddress ≤ 0x10000)
    (h : (assemble options file lines).result = .ok done) :
    ∃ o : Outline lines,
      done.program.header = some { name := o.name, load := o.load, length := o.length } ∧
      done.program.text = listedText (assemble options file lines).listing ∧
      (∀ (i : Nat) raw st, o.opening.length < i → i ≤ (beforeEnd lines).length →
        lines[i]? = some raw → statement? raw = some st →
        ∃ e a, (assemble options file lines).listing[i]? = some e ∧ e.address = some a ∧
          o.Accounts (assemble options file lines).listing i (a - o.load)) ∧
      ((∀ raw ∈ o.rest, statement? raw = none) →
        o.Accounts (assemble options file lines).listing (beforeEnd lines).length o.length) := by
  have hadmissible := assemble_isOk_iff_admissible.mp ⟨done, h⟩
  obtain ⟨o⟩ := Outline.exists_of_assembled hadmissible.assembled
  refine ⟨o, header_of_assemble h o, text_eq_listedText h o, ?_, ?_⟩
  · intro i raw st hi hle hraw hst
    have hstart := o.isStart_behind hi hle hraw
    refine ⟨_, addressAt lines i, listing_of_assemble h hle hraw, ?_,
      accounts_address hlimit h o hi hle⟩
    rw [entry_address, hst]
    simp [hstart]
  · intro hrest
    have hplain : ∀ raw ∈ o.rest, isStart raw = false :=
      fun raw hraw => holds_remark (hrest raw hraw) .start
    have haccounts := accounts_address hlimit h o o.opening_lt (Nat.le_refl _)
    rwa [o.length_eq hplain, extent_remarks hrest, Int.natCast_zero, Int.add_zero]

end Assembly

/-- A line before START, and each kind of statement that takes up bytes. -/
def Source.inventory : List Text := [
  "      RSUB",
  "MAIN  START 1000",
  "FIRST LDA   TABLE",
  "TABLE RESW  2",
  "      BYTE  C'EOF'",
  "      BYTE  X'F1'",
  "      RESB  5",
  "# Nothing is reserved here.",
  "      EXPORTS",
  "      WORD  -1",
  "      END"]

theorem address_accounting_inventory : ({} : Options).maxAddress ≤ 0x10000 ∧
    ∃ done, (assemble {} "main.asm" inventory).result = .ok done ∧
    done.layout.length = 24 ∧ ∃ o : Outline inventory,
      done.program.header = some { name := o.name, load := o.load, length := o.length } ∧
      done.program.text = listedText (assemble {} "main.asm" inventory).listing ∧
      (∀ (i : Nat) raw st, o.opening.length < i → i ≤ (beforeEnd inventory).length →
        inventory[i]? = some raw → statement? raw = some st →
        ∃ e a, (assemble {} "main.asm" inventory).listing[i]? = some e ∧ e.address = some a ∧
          o.Accounts (assemble {} "main.asm" inventory).listing i (a - o.load)) ∧
      ((∀ raw ∈ o.rest, statement? raw = none) →
        o.Accounts (assemble {} "main.asm" inventory).listing (beforeEnd inventory).length
          o.length) := by
  have hlimit : ({} : Options).maxAddress ≤ 0x10000 := by decide
  have hrun : ∃ done, (assemble {} "main.asm" inventory).result = .ok done ∧
      done.layout.length = 24 := ⟨_, rfl, by decide +kernel⟩
  obtain ⟨done, hdone, hlength⟩ := hrun
  exact ⟨hlimit, done, hdone, hlength, address_accounting hlimit hdone⟩

end TwoPass
