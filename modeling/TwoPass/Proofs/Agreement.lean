import TwoPass.Proofs.SecondPass

/-
  The passes agree line for line. The listing of the second pass is that of `entriesFrom`: each
  entry has the counter that the lines before it count up to. The first pass counts in the same
  way, so the address of an entry is where the first pass stands before that line, or behind it if
  the line is START, and no label is ever found out of phase (`passes_agree`).
-/

namespace TwoPass

open Source

namespace Source

/-- The entry of a line that the counter reaches at `counter`. -/
def entry (address : Text → Nat) (counter : Nat) (line : Line) : ListingEntry :=
  match statement? line.raw with
  | none => { line := line.location.line, address := none, text := Text.dropLineEnd line.raw }
  | some st =>
    { line := line.location.line
      address := some (if isStart line.raw then count counter line.raw else counter : Nat)
      code := st.code address
      text := st.text }

/-- The entries of lines, from the counter before them. -/
def entriesFrom (address : Text → Nat) : (counter : Nat) → List Line → List ListingEntry
  | _, [] => []
  | c, line :: rest => entry address c line :: entriesFrom address (count c line.raw) rest

theorem entriesFrom_getElem? (address : Text → Nat) (c : Nat) (source : List Line) (i : Nat) :
    (entriesFrom address c source)[i]? =
      source[i]?.map (entry address (countFrom c ((source.take i).map Line.raw))) := by
  induction source generalizing c i with
  | nil => rfl
  | cons line rest ih =>
    cases i with
    | zero => rfl
    | succ i => exact ih (count c line.raw) i

theorem length_entriesFrom (address : Text → Nat) (c : Nat) (source : List Line) :
    (entriesFrom address c source).length = source.length := by
  induction source generalizing c with
  | nil => rfl
  | cons line rest ih => rw [entriesFrom, List.length_cons, List.length_cons, ih]

@[simp] theorem entry_line (address : Text → Nat) (c : Nat) (line : Line) :
    (entry address c line).line = line.location.line := by
  unfold entry
  split <;> rfl

theorem entry_address (address : Text → Nat) (c : Nat) (line : Line) :
    (entry address c line).address = (statement? line.raw).map fun _ =>
      ((if isStart line.raw then count c line.raw else c : Nat) : Int) := by
  unfold entry
  split
  · rename_i h
    rw [h]
    rfl
  · rename_i h
    rw [h]
    rfl

end Source

namespace Generation

variable {final : Int} {address : Text → Nat} {g : Generation} {c : Nat}

theorem behind_listing (h : g.counter = c) (line : Line) :
    (g.behind final address line).listing = g.listing ++ [entry address c line] := by
  unfold behind entry
  cases hst : statement? line.raw with
  | none => rfl
  | some st =>
    unfold taken
    by_cases hs : st.operation = .directive .start
    · have hcount := count_start hst hs c
      have hcode : st.code address = [] := by rw [Statement.code, hs]
      have hstart : isStart line.raw = true := holds_iff.mpr ⟨st, hst, hs⟩
      simp only [hs, if_true, hcount, hcode, hstart, started, list]
    · have hstart : isStart line.raw = false := by rw [isStart, holds_of_statement hst]; simp [hs]
      by_cases hf : st.operation = .directive .finish
      · have hcode : st.code address = [] := by rw [Statement.code, hf]
        simp only [hf, hstart, ended, list, h, hcode]
        rfl
      · simp only [hs, hf, if_false, hstart, emitted, list, h]
        rfl

/-- The second pass lists its lines at the addresses that they count up to. -/
theorem through_listing (h : g.counter = c) (source : List Line) :
    (through final address g source).listing = g.listing ++ entriesFrom address c source := by
  induction source generalizing g c with
  | nil => exact (List.append_nil _).symm
  | cons line rest ih =>
    rw [through_cons, ih (behind_counter h line), behind_listing h, List.append_assoc]
    rfl

end Generation

theorem generated_listing (lines : List Text) (source : List Line) :
    (generated lines source).listing = entriesFrom (labelAddress lines) 0 source := by
  rw [generated, Generation.through_listing rfl]
  rfl

/-- What is at position `i` of a listing: the entry of line `i`, at the address of that line. -/
theorem listing_getElem? {options : Options} {file : Text} {lines : List Text} {i : Nat}
    {e : ListingEntry} (h : (assemble options file lines).listing[i]? = some e) :
    (∃ s, layOut options (numberLines file lines) = .ok s) ∧ ∃ raw, lines[i]? = some raw ∧
      e = entry (labelAddress lines) (addressAt lines i)
        { location := { file, line := (i : Int) + 1 }, raw } := by
  rcases assemble_listing options file lines with hnil | ⟨s, before, after, hs, hsplit, hlist⟩
  · rw [hnil] at h
    cases h
  · refine ⟨⟨s, hs⟩, ?_⟩
    rw [hlist, generated_listing, entriesFrom_getElem?] at h
    obtain ⟨line, hline, rfl⟩ := Option.map_eq_some_iff.mp h
    have hi : i < before.length := (List.getElem?_eq_some_iff.mp hline).1
    have hget : (numberLines file lines)[i]? = some line := by
      rw [hsplit, List.getElem?_append_left hi, hline]
    have hbefore : (before.take i).map Line.raw = lines.take i := by
      have htake : (numberLines file lines).take i = before.take i := by
        rw [hsplit, List.take_append_of_le_length (Nat.le_of_lt hi)]
      rw [← htake, numberLines_take, numberLines_raw]
    rw [numberLines_getElem?] at hget
    obtain ⟨raw, hraw, rfl⟩ := Option.map_eq_some_iff.mp hget
    exact ⟨raw, hraw, by rw [hbefore]; rfl⟩

/-- The passes agree line for line, whether or not the second one succeeds. There is no phase fault,
    and an entry of the listing is for the line at its own position: it has an address if this is a
    line with a statement, and the address is the counter of the first pass before that line, or
    behind it for START. Of a source that is assembled all lines up to END are listed. -/
theorem passes_agree (options : Options) (file : Text) (lines : List Text) :
    (∀ fault, (assemble options file lines).result = .error fault →
      fault.cause.category ≠ .phase) ∧
    (∀ done, (assemble options file lines).result = .ok done →
      (assemble options file lines).listing.length = (upToEnd (numberLines file lines)).length) ∧
    ∀ (i : Nat) e, (assemble options file lines).listing[i]? = some e →
      ∃ raw, lines[i]? = some raw ∧ e.line = (i : Int) + 1 ∧
        e.address.isSome = (statement? raw).isSome ∧
        ∀ a, e.address = some a → ∃ s,
          layOut options
            (numberLines file (lines.take (if isStart raw then i + 1 else i))) = .ok s ∧
          a = s.layout.final := by
  refine ⟨fun fault h => assemble_error h, ?_, ?_⟩
  · intro done h
    obtain ⟨-, -, -, hlist⟩ := assemble_ok h
    rw [hlist, generated_listing, length_entriesFrom]
  intro i e he
  obtain ⟨⟨s, hs⟩, raw, hraw, rfl⟩ := listing_getElem? he
  rw [entry_line, entry_address]
  refine ⟨raw, hraw, rfl, Option.isSome_map, ?_⟩
  intro a ha
  obtain ⟨-, -, rfl⟩ := Option.map_eq_some_iff.mp ha
  cases hstart : isStart raw with
  | true =>
    obtain ⟨s₁, hs₁, hfinal⟩ := layOut_take hs (i + 1)
    refine ⟨s₁, hs₁, ?_⟩
    rw [hfinal, addressAt_succ hraw]
    rfl
  | false =>
    obtain ⟨s₁, hs₁, hfinal⟩ := layOut_take hs i
    exact ⟨s₁, hs₁, hfinal.symm⟩

/-- A source that the second pass breaks off at its last line. -/
def Source.broken : List Text := [
  "LOOP  START 1000",
  "# A remark has no address.",
  "LOOP  J     LOOP",
  "      JUMP  LOOP"]

theorem passes_agree_broken : ∃ fault e raw,
    (assemble {} "loop.asm" broken).result = .error fault ∧ fault.cause.category ≠ .phase ∧
    (assemble {} "loop.asm" broken).listing[2]? = some e ∧ e.address = some 0x1000 ∧
    broken[2]? = some raw ∧ e.line = 3 ∧ e.address.isSome = (statement? raw).isSome ∧
    ∀ a, e.address = some a → ∃ s,
      layOut {} (numberLines "loop.asm" (broken.take (if isStart raw then 2 + 1 else 2))) = .ok s ∧
      a = s.layout.final := by
  have he : (assemble {} "loop.asm" broken).listing[2]? = some
      { line := 3, address := some 0x1000, code := "3C1000", text := "LOOP  J     LOOP" } := by
    decide +kernel
  obtain ⟨fault, hfault⟩ : ∃ fault, (assemble {} "loop.asm" broken).result = .error fault :=
    ⟨_, rfl⟩
  obtain ⟨hphase, -, hlisting⟩ := passes_agree {} "loop.asm" broken
  obtain ⟨raw, hraw, hline, hsome, hagree⟩ := hlisting 2 _ he
  exact ⟨fault, _, raw, hfault, hphase fault hfault, he, rfl, hraw, hline, hsome, hagree⟩

end TwoPass
