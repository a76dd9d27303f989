import TwoPass.Proofs.FirstPass

/-
  The symbol table of a source, read off its lines. A table that was made by definitions alone is
  `Consistent`: looking up the name of an entry gives that entry. Names that are entered one after
  the other stay in the order of their first entries (`names_foldl`), so the table of a source that
  was laid out has the labels of the lines in the order of their first definition, each at the
  address of the first line that defines it (`layOut_addresses`).
-/

namespace TwoPass

open Source

namespace SymbolTable

theorem contains_iff {t : SymbolTable} {name : Text} : t.contains name = true ↔ name ∈ t.names := by
  unfold contains find? names
  rw [List.find?_isSome, List.mem_map]
  simp only [decide_eq_true_eq]

/-- Looking up the name of an entry gives that entry. -/
def Consistent (t : SymbolTable) : Prop := ∀ s ∈ t.symbols, t.find? s.name = some s

theorem Consistent.define {t : SymbolTable} (h : t.Consistent) (s : Symbol) :
    (t.define s).1.Consistent := by
  intro x hx
  rw [find?_define]
  cases hf : t.find? s.name with
  | some existing =>
    rw [define_of_some hf] at hx
    rw [h x hx]
    rfl
  | none =>
    rw [define_of_none hf] at hx
    rcases List.mem_append.mp hx with hx | hx
    · rw [h x hx]
      rfl
    · rw [List.mem_singleton.mp hx, hf, if_pos rfl]
      rfl

theorem names_define (t : SymbolTable) (s : Symbol) :
    (t.define s).1.names = t.names ++ [s.name].filter (· ∉ t.names) := by
  have hmem : s.name ∈ t.names ↔ (t.find? s.name).isSome = true := contains_iff.symm
  cases hf : t.find? s.name with
  | some existing =>
    have hin : s.name ∈ t.names := by rw [hmem, hf]; rfl
    rw [define_of_some hf, List.filter_cons_of_neg (by simpa using hin), List.filter_nil,
      List.append_nil]
  | none =>
    have hout : s.name ∉ t.names := by rw [hmem, hf]; decide
    rw [define_of_none hf, List.filter_cons_of_pos (by simpa using hout), List.filter_nil]
    exact List.map_append

/-- Where each step adds its name unless it is there, a run adds those of its names that were not
    there at the start, each of them once and in their order. -/
theorem names_foldl {σ α : Type} (names : σ → List Text) (name? : α → Option Text)
    {step : σ → α → σ}
    (hstep : ∀ s a, names (step s a) = names s ++ (name? a).toList.filter (· ∉ names s))
    (s : σ) (run : List α) :
    names (run.foldl step s) =
      names s ++ ((run.filterMap name?).filter (· ∉ names s)).eraseDups := by
  induction run generalizing s with
  | nil => simp
  | cons a rest ih =>
    rw [List.foldl_cons, ih, hstep, List.filterMap_cons]
    cases name? a with
    | none => simp
    | some name =>
      rw [Option.toList_some]
      dsimp only
      by_cases hin : name ∈ names s
      · rw [List.filter_cons_of_neg (by simpa using hin), List.filter_nil, List.append_nil,
          List.filter_cons_of_neg (by simpa using hin)]
      · have hrest : (rest.filterMap name?).filter (· ∉ names s ++ [name]) =
            ((rest.filterMap name?).filter (· ∉ names s)).filter fun other => !other == name := by
          rw [List.filter_filter]
          apply List.filter_congr
          intro other _
          rw [Bool.eq_iff_iff]
          simp [and_comm]
        rw [List.filter_cons_of_pos (by simpa using hin), List.filter_nil, hrest,
          List.filter_cons_of_pos (by simpa using hin), List.eraseDups_cons, List.append_assoc,
          List.singleton_append]

end SymbolTable

namespace Layout

/-- A line adds its label to the table, unless the table has it. -/
theorem behind_names (l : Layout) (line : Line) :
    (l.behind line).symbols.names =
      l.symbols.names ++ (label? line.raw).toList.filter (· ∉ l.symbols.names) := by
  unfold behind label? Statement.defined
  cases statement? line.raw with
  | none => simp
  | some st =>
    by_cases hs : st.operation = .directive .start
    · simp [hs]
    · simp only [hs, if_false, Option.bind_some, enter]
      cases st.label with
      | none => simp
      | some label => exact SymbolTable.names_define l.symbols _

theorem behind_consistent {l : Layout} (h : l.symbols.Consistent) (line : Line) :
    (l.behind line).symbols.Consistent := by
  unfold behind
  cases statement? line.raw with
  | none => exact h
  | some st =>
    by_cases hs : st.operation = .directive .start
    · simp only [hs, if_true]
      exact h
    · simp only [hs, if_false, enter]
      cases st.label with
      | none => exact h
      | some label => exact h.define _

/-- Lines add those of their labels that the table does not have, each of them once. -/
theorem foldl_behind_names (l : Layout) (source : List Line) :
    (source.foldl behind l).symbols.names = l.symbols.names ++
      ((labels (source.map Line.raw)).filter (· ∉ l.symbols.names)).eraseDups := by
  unfold labels
  rw [List.filterMap_map]
  exact SymbolTable.names_foldl (fun l : Layout => l.symbols.names) _ behind_names l source

theorem foldl_behind_consistent {l : Layout} (h : l.symbols.Consistent) (source : List Line) :
    (source.foldl behind l).symbols.Consistent := by
  induction source generalizing l with
  | nil => exact h
  | cons line rest ih => exact ih (behind_consistent h line)

end Layout

section Layouts

variable {options : Options} {file : Text} {lines : List Text} {s : Scan}

theorem layOut_names (h : layOut options (numberLines file lines) = .ok s) :
    s.layout.symbols.names = (labels lines).eraseDups := by
  have hempty : (labels lines).filter (· ∉ ({} : Layout).symbols.names) = labels lines :=
    List.filter_eq_self.mpr fun _ _ => rfl
  rw [layOut_layout h, Layout.foldl_behind_names, numberLines_raw, hempty]
  rfl

theorem layOut_contains_iff (h : layOut options (numberLines file lines) = .ok s) {name : Text} :
    s.layout.symbols.contains name = true ↔ name ∈ labels lines := by
  rw [SymbolTable.contains_iff, layOut_names h, List.mem_eraseDups]

/-- Every symbol has the address of the first line that defines it. -/
theorem layOut_address (h : layOut options (numberLines file lines) = .ok s) {symbol : Symbol}
    (hs : symbol ∈ s.layout.symbols.symbols) :
    symbol.address = labelAddress lines symbol.name := by
  have hconsistent : s.layout.symbols.Consistent := by
    rw [layOut_layout h]
    exact Layout.foldl_behind_consistent (fun _ hx => absurd hx List.not_mem_nil) _
  rw [← addressOf_eq h, SymbolTable.addressOf, hconsistent symbol hs]

/-- The table has every label once, in the order of their first definitions. -/
theorem layOut_addresses (h : layOut options (numberLines file lines) = .ok s) :
    s.layout.symbols.addresses =
      (labels lines).eraseDups.map fun name => (name, (labelAddress lines name : Int)) := by
  rw [← layOut_names h]
  unfold SymbolTable.addresses SymbolTable.names
  rw [List.map_map]
  apply List.map_congr_left
  intro symbol hs
  rw [layOut_address h hs]
  rfl

end Layouts

end TwoPass
