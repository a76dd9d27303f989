import Mathlib.Data.Finset.Card
import TwoPass.Proofs.Symbols

/-
  The symbol table behind any sequence of definitions, `SymbolTable.ofSymbols`. Looking up a name in
  it finds the first definition of the name in the sequence (`find?_ofSymbols`), its names are those
  of the sequence in the order of their first definitions (`names_ofSymbols`), each of them once
  (`nodup_names`). Each is shown for one more definition at the end, and from there for all by
  induction. `first_definition_stays` puts together what is seen of the table from outside.
-/

namespace TwoPass.SymbolTable

/-- `s` is the first of some definitions that has its name. -/
def FirstOf (definitions : List Symbol) (s : Symbol) : Prop :=
  ∃ before after, definitions = before ++ s :: after ∧ s.name ∉ before.map Symbol.name

theorem list_find?_eq_some_iff {definitions : List Symbol} {name : Text} {s : Symbol} :
    (definitions.find? fun x => x.name = name) = some s ↔
      FirstOf definitions s ∧ s.name = name := by
  rw [List.find?_eq_some_iff_append, decide_eq_true_eq, and_comm]
  refine and_congr_left ?_
  rintro rfl
  simp only [FirstOf, List.mem_map, not_exists, not_and, Bool.not_eq_true', decide_eq_false_iff_not]

theorem list_find?_eq_none_iff {definitions : List Symbol} {name : Text} :
    (definitions.find? fun x => x.name = name) = none ↔ name ∉ definitions.map Symbol.name := by
  simp only [List.find?_eq_none, decide_eq_true_eq, List.mem_map, not_exists, not_and]

/-! ## One more definition -/

theorem ofSymbols_concat (definitions : List Symbol) (s : Symbol) :
    ofSymbols (definitions ++ [s]) = ((ofSymbols definitions).define s).1 := List.foldl_concat ..

/-- A definition is answered with the entry of its name. -/
theorem define_snd (t : SymbolTable) (s : Symbol) : (t.define s).2 = t.find? s.name := by
  cases h : t.find? s.name with
  | some existing => rw [define_of_some h]
  | none => rw [define_of_none h]

theorem nodup_names_define {t : SymbolTable} (h : t.names.Nodup) (s : Symbol) :
    (t.define s).1.names.Nodup := by
  rw [names_define]
  by_cases hin : s.name ∈ t.names
  · rwa [List.filter_cons_of_neg (by simpa using hin), List.filter_nil, List.append_nil]
  · rw [List.filter_cons_of_pos (by simpa using hin), List.filter_nil, ← List.concat_eq_append]
    exact h.concat hin

/-! ## All definitions -/

section Sequences

variable (definitions : List Symbol)

/-- The table answers for the whole sequence. -/
theorem find?_ofSymbols (name : Text) :
    (ofSymbols definitions).find? name = definitions.find? fun x => x.name = name := by
  induction definitions using List.reverseRecOn with
  | nil => rfl
  | append_singleton definitions s ih =>
    rw [ofSymbols_concat, find?_define, ih, List.find?_append, List.find?_singleton]
    simp only [decide_eq_true_eq]

theorem consistent_ofSymbols : (ofSymbols definitions).Consistent := by
  induction definitions using List.reverseRecOn with
  | nil => exact fun _ hx => absurd hx List.not_mem_nil
  | append_singleton definitions s ih =>
    rw [ofSymbols_concat]
    exact ih.define s

theorem nodup_names : (ofSymbols definitions).names.Nodup := by
  induction definitions using List.reverseRecOn with
  | nil => exact List.nodup_nil
  | append_singleton definitions s ih =>
    rw [ofSymbols_concat]
    exact nodup_names_define ih s

theorem names_ofSymbols :
    (ofSymbols definitions).names = (definitions.map Symbol.name).eraseDups := by
  have hrun := names_foldl names (some ∘ Symbol.name) names_define {} definitions
  have hempty : (definitions.map Symbol.name).filter (· ∉ ({} : SymbolTable).names) =
      definitions.map Symbol.name := List.filter_eq_self.mpr fun _ _ => rfl
  rw [List.filterMap_eq_map, hempty] at hrun
  exact hrun

/-- Every entry is the first definition of its name. -/
theorem firstOf_of_mem {s : Symbol} (h : s ∈ (ofSymbols definitions).symbols) :
    FirstOf definitions s := by
  have hfind := consistent_ofSymbols definitions s h
  rw [find?_ofSymbols] at hfind
  exact (list_find?_eq_some_iff.mp hfind).1

theorem size_ofSymbols :
    (ofSymbols definitions).size = (definitions.map Symbol.name).toFinset.card := by
  have hsame : (definitions.map Symbol.name).toFinset = (ofSymbols definitions).names.toFinset := by
    ext name
    rw [List.mem_toFinset, List.mem_toFinset, names_ofSymbols, List.mem_eraseDups]
  rw [hsame, List.toFinset_card_of_nodup (nodup_names definitions)]
  exact (List.length_map _).symm

theorem addressOf_ofSymbols (name : Text) (default : Int) :
    (ofSymbols definitions).addressOf name default =
      ((definitions.find? fun x => x.name = name).map Symbol.address).getD default := by
  unfold addressOf
  rw [find?_ofSymbols]
  cases definitions.find? fun x => x.name = name <;> rfl

end Sequences

/-- The first definition of a name stays, whatever is defined later. Behind any sequence of
    definitions, the entries of the table, and its addresses, have the distinct names in the order
    of their first definitions, each as it was defined first; its size is the number of distinct
    names. A name is looked up as it was defined first. A further definition is answered with
    nothing exactly if its name is new, and otherwise with the first definition of the name; and
    what has been found under a name is found under it behind all later definitions. -/
theorem first_definition_stays (definitions : List Symbol) :
    ((ofSymbols definitions).symbols.map Symbol.name = (definitions.map Symbol.name).eraseDups ∧
      ∀ s ∈ (ofSymbols definitions).symbols, FirstOf definitions s) ∧
    ((ofSymbols definitions).addresses.map Prod.fst = (definitions.map Symbol.name).eraseDups ∧
      ∀ p ∈ (ofSymbols definitions).addresses,
        ∃ s, FirstOf definitions s ∧ p = (s.name, s.address)) ∧
    (ofSymbols definitions).size = (definitions.map Symbol.name).toFinset.card ∧
    (∀ name,
      (∀ s, (ofSymbols definitions).find? name = some s ↔ FirstOf definitions s ∧ s.name = name) ∧
      ∀ default,
        (∀ s, FirstOf definitions s → s.name = name →
          (ofSymbols definitions).addressOf name default = s.address) ∧
        (name ∉ definitions.map Symbol.name →
          (ofSymbols definitions).addressOf name default = default)) ∧
    (∀ s, ((ofSymbols definitions).define s).1 = ofSymbols (definitions ++ [s]) ∧
      (((ofSymbols definitions).define s).2 = none ↔ s.name ∉ definitions.map Symbol.name) ∧
      ∀ existing, ((ofSymbols definitions).define s).2 = some existing ↔
        FirstOf definitions existing ∧ existing.name = s.name) ∧
    ∀ later name s, (ofSymbols definitions).find? name = some s →
      (ofSymbols (definitions ++ later)).find? name = some s := by
  refine ⟨⟨names_ofSymbols definitions, fun s hs => firstOf_of_mem definitions hs⟩, ⟨?_, ?_⟩,
    size_ofSymbols definitions, fun name => ⟨fun s => ?_, fun default => ⟨?_, ?_⟩⟩,
    fun s => ⟨(ofSymbols_concat definitions s).symm, ?_, fun existing => ?_⟩, ?_⟩
  · rw [← names_ofSymbols, addresses, List.map_map]
    rfl
  · intro p hp
    obtain ⟨s, hs, rfl⟩ := List.mem_map.mp hp
    exact ⟨s, firstOf_of_mem definitions hs, rfl⟩
  · rw [find?_ofSymbols, list_find?_eq_some_iff]
  · intro s hfirst hname
    rw [addressOf_ofSymbols, list_find?_eq_some_iff.mpr ⟨hfirst, hname⟩]
    rfl
  · intro hnew
    rw [addressOf_ofSymbols, list_find?_eq_none_iff.mpr hnew]
    rfl
  · rw [define_snd, find?_ofSymbols, list_find?_eq_none_iff]
  · rw [define_snd, find?_ofSymbols, list_find?_eq_some_iff]
  · intro later name s hs
    rw [find?_ofSymbols] at hs ⊢
    rw [List.find?_append, hs, Option.some_or]

-- A name that comes back keeps its place and its address.
example : (ofSymbols [⟨"LOOP", 3, none⟩, ⟨"EXIT", 9, none⟩, ⟨"LOOP", 12, none⟩]).addresses =
    [("LOOP".toList, 3), ("EXIT".toList, 9)] := by decide

end TwoPass.SymbolTable
