import TwoPass.Proofs.Accounting
import TwoPass.Proofs.Remarks

/-
  The listing of a source that is assembled. Each line up to END has its entry, made from that line
  and the counter alone (`entriesFrom`). So the entries show the lines in order, numbered from one,
  without the characters that end them, and an address where a line is no remark; and their codes
  are those that the text records hold (`listing_agrees`).
-/

namespace TwoPass

open Source Object

namespace Source

/-- The entry of a line shows it without its end, at an address unless it is a remark. -/
structure Listed (raw : Text) (e : ListingEntry) : Prop where
  text : e.text = Text.dropLineEnd raw
  address : e.address = none ↔ IsRemark raw

/-- A statement keeps its line, without the end. -/
theorem text_of_statement {raw : Text} {st : Statement} (h : statement? raw = some st) :
    st.text = Text.dropLineEnd raw := by
  have hkind := (readable_of_statement h).2
  unfold statement? at h
  split at h
  · rename_i found hread
    subst h
    unfold Statement.read at hread
    rw [if_neg hkind] at hread
    -- With a label or without one, the line is kept as it is.
    split at hread
    · cases hread
    · split_ifs at hread
      · split at hread
        · cases hread
        · cases hread
          rfl
      · cases hread
        rfl
  · cases h

theorem entry_listed (address : Text → Nat) (c : Nat) {line : Line} (h : Readable line.raw) :
    Listed line.raw (entry address c line) := by
  constructor
  · unfold entry
    cases hst : statement? line.raw with
    | none => rfl
    | some st => exact text_of_statement hst
  · rw [entry_address, Option.map_eq_none_iff, statement?_eq_none_iff h]

theorem entriesFrom_listed (address : Text → Nat) (c : Nat) {source : List Line}
    (h : ∀ line ∈ source, Readable line.raw) :
    List.Forall₂ Listed (source.map Line.raw) (entriesFrom address c source) := by
  induction source generalizing c with
  | nil => exact .nil
  | cons line rest ih =>
    rw [List.forall_mem_cons] at h
    exact .cons (entry_listed address c h.1) (ih (count c line.raw) h.2)

theorem entriesFrom_line (address : Text → Nat) (c : Nat) (source : List Line) :
    (entriesFrom address c source).map ListingEntry.line =
      source.map fun line => line.location.line := by
  induction source generalizing c with
  | nil => rfl
  | cons line rest ih => rw [entriesFrom, List.map_cons, List.map_cons, ih, entry_line]

end Source

theorem numberLines_line (file : Text) (lines : List Text) :
    ((numberLines file lines).map fun line => line.location.line) =
      (List.range' 1 lines.length).map Int.ofNat := by
  unfold numberLines
  rw [← List.zipIdx_map_snd, List.map_map, List.map_map]
  rfl

/-- The listing and the object program of a source that is assembled agree. There is one entry for
    each line up to the first END, in order and numbered from one. An entry shows its line without
    the characters that end it, and has no address exactly if the line is a comment or blank. The
    codes that are not empty are those of the text records. -/
theorem listing_agrees {options : Options} {file : Text} {lines : List Text} {done : Assembly}
    (h : (assemble options file lines).result = .ok done) :
    ∃ before endLine rest, lines = before ++ endLine :: rest ∧
      (∀ raw ∈ before, isEnd raw = false) ∧ isEnd endLine = true ∧
      List.Forall₂ Listed (before ++ [endLine]) (assemble options file lines).listing ∧
      (assemble options file lines).listing.map ListingEntry.line =
        (List.range' 1 (before.length + 1)).map Int.ofNat ∧
      ((assemble options file lines).listing.map ListingEntry.code).filter (· ≠ []) =
        done.program.text.map TextRecord.code := by
  obtain ⟨⟨s, hs⟩, hassembled, -, hlisting⟩ := assemble_ok h
  obtain ⟨o⟩ := Outline.exists_of_assembled hassembled
  have hsource : upToEnd (numberLines file lines) =
      numberLines file (beforeEnd lines ++ [o.endLine]) := by
    rw [upToEnd_eq_take, numberLines_raw, numberLines_take, o.take_end]
  have hreadable : ∀ line ∈ numberLines file (beforeEnd lines ++ [o.endLine]),
      Readable line.raw := by
    intro line hline
    rw [← hsource] at hline
    obtain ⟨after, hafter⟩ := upToEnd_before (numberLines file lines)
    have hmem : line ∈ numberLines file lines := by
      rw [hafter]
      exact List.mem_append_left _ hline
    exact ((fits_iff.mp (layOut_fits hs)).1 _ (List.mem_map_of_mem hmem)).readable
  have htext := text_eq_listedText h o
  rw [hsource, generated_listing] at hlisting
  refine ⟨beforeEnd lines, o.endLine, o.rest, o.cut_beforeEnd, ?_, o.isEnd, ?_, ?_, ?_⟩
  · exact fun _ => isEnd_of_mem_beforeEnd
  · have hlisted := entriesFrom_listed (labelAddress lines) 0 hreadable
    rwa [numberLines_raw, ← hlisting] at hlisted
  · rw [hlisting, entriesFrom_line, numberLines_line, List.length_append]
    rfl
  · rw [htext, listedText, List.map_map]
    exact (List.map_id _).symm

/-- A source with remarks, statements with and without a code, and different line ends. -/
def Source.assorted : List Text := [
  "# COPY\r\n",
  "COPY  START 1000\r",
  " \n",
  "FIRST LDA   FIVE \n",
  "      RESB  2",
  "FIVE  WORD  -5\r\r\n",
  "      END   FIRST\n",
  "      RSUB\n"]

theorem listing_agrees_assorted :
    let o := assemble {} "copy.asm" assorted
    ∃ done, o.result = .ok done ∧
      o.listing = [
        { line := 1, address := none, text := "# COPY" },
        { line := 2, address := some 0x1000, text := "COPY  START 1000" },
        { line := 3, address := none, text := " " },
        { line := 4, address := some 0x1000, code := "001005", text := "FIRST LDA   FIVE " },
        { line := 5, address := some 0x1003, text := "      RESB  2" },
        { line := 6, address := some 0x1005, code := "FFFFFB", text := "FIVE  WORD  -5" },
        { line := 7, address := some 0x1008, text := "      END   FIRST" }] ∧
      ∃ before endLine rest, assorted = before ++ endLine :: rest ∧
        (∀ raw ∈ before, isEnd raw = false) ∧ isEnd endLine = true ∧
        List.Forall₂ Listed (before ++ [endLine]) o.listing ∧
        o.listing.map ListingEntry.line = (List.range' 1 (before.length + 1)).map Int.ofNat ∧
        (o.listing.map ListingEntry.code).filter (· ≠ []) =
          done.program.text.map TextRecord.code := by
  intro o
  have hrun : ∃ done, o.result = .ok done := ⟨_, rfl⟩
  obtain ⟨done, hdone⟩ := hrun
  exact ⟨done, hdone, by decide +kernel, listing_agrees hdone⟩

end TwoPass
