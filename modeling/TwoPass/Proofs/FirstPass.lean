import TwoPass.Proofs.Operands

/-
  The first pass as a fold of a pure function. `Layout.behind` is the layout behind a line. A step
  of the pass succeeds exactly below the limit, on a `Layable` line, and if the options let the
  table take in its label; then it gives this layout (`step_cases`). So a source is laid out exactly
  if it `Fits` and, where duplicates are rejected, no label is defined twice (`layOut_cases`).
  Counter and symbol table of a finished pass are read off the raw lines: `layOut_final` gives
  `Source.countFrom`, `addressOf_eq` the address of the first line that defines a label.
-/

namespace TwoPass

/-! ## Addresses of lines -/

/-- The label that a statement gives an address. The label of START names the program instead. -/
def Statement.defined (st : Statement) : Option Text :=
  if st.operation = .directive .start then none else st.label

namespace Source

/-- The label that a line gives an address. -/
def label? (raw : Text) : Option Text := (statement? raw).bind Statement.defined

/-- The labels that lines give addresses, in order. -/
def labels (lines : List Text) : List Text := lines.filterMap label?

/-- The counter behind a line, from the counter before it. -/
def count (counter : Nat) (raw : Text) : Nat :=
  match statement? raw with
  | none => counter
  | some st => if st.operation = .directive .start then st.loadAddress else counter + st.bytes

/-- The counter behind lines, from the counter before them. -/
def countFrom (counter : Nat) (lines : List Text) : Nat := lines.foldl count counter

/-- The address of the line at position `i`: what the lines before it count up to. -/
def addressAt (lines : List Text) (i : Nat) : Nat := countFrom 0 (lines.take i)

/-- Whether a line gives a label its address. -/
def defines (label raw : Text) : Bool :=
  (statement? raw).any fun st => st.operation ≠ .directive .start ∧ st.label = some label

/-- The address of the first line that defines a label, wherever it stands; zero if none does. -/
def labelAddress (lines : List Text) (label : Text) : Nat :=
  match lines.findIdx? (defines label) with
  | some i => addressAt lines i
  | none => 0

/-- The bytes that the statements of lines take. -/
def extent (lines : List Text) : Nat := ((lines.filterMap statement?).map Statement.bytes).sum

/-- A line that can be given an address, and the line behind it too. -/
structure Layable (raw : Text) : Prop where
  readable : Readable raw
  sizable : ∀ st, statement? raw = some st → st.Sizable

@[simp] theorem countFrom_nil (c : Nat) : countFrom c [] = c := rfl

@[simp] theorem countFrom_cons (c : Nat) (raw : Text) (lines : List Text) :
    countFrom c (raw :: lines) = countFrom (count c raw) lines := rfl

theorem countFrom_append (c : Nat) (before after : List Text) :
    countFrom c (before ++ after) = countFrom (countFrom c before) after := List.foldl_append

theorem extent_cons (raw : Text) (lines : List Text) :
    extent (raw :: lines) = ((statement? raw).map Statement.bytes).getD 0 + extent lines := by
  unfold extent
  rw [List.filterMap_cons]
  cases statement? raw with
  | none => simp
  | some st => rfl

theorem extent_append (before after : List Text) :
    extent (before ++ after) = extent before + extent after := by
  unfold extent
  rw [List.filterMap_append, List.map_append, List.sum_append]

/-- END takes no bytes. -/
theorem extent_end {raw : Text} (h : isEnd raw = true) : extent [raw] = 0 := by
  obtain ⟨st, hst, ho⟩ := holds_iff.mp h
  have hbytes : st.bytes = 0 := Statement.bytes_of_size (by rw [ho]; rfl)
  simp [extent, hst, hbytes]

theorem extent_remarks {lines : List Text} (h : ∀ raw ∈ lines, statement? raw = none) :
    extent lines = 0 := by
  unfold extent
  rw [List.filterMap_eq_nil_iff.mpr h]
  rfl

theorem defines_iff {label raw : Text} : defines label raw = true ↔ label? raw = some label := by
  unfold defines label? Statement.defined
  cases statement? raw with
  | none => simp
  | some st => by_cases ho : st.operation = .directive .start <;> simp [ho]

theorem labels_append (before after : List Text) :
    labels (before ++ after) = labels before ++ labels after := List.filterMap_append

theorem labels_cons (raw : Text) (lines : List Text) :
    labels (raw :: lines) = (label? raw).toList ++ labels lines := by
  unfold labels
  rw [List.filterMap_cons]
  cases label? raw <;> rfl

theorem findIdx_defines_lt {label : Text} {lines : List Text} (h : label ∈ labels lines) :
    lines.findIdx (defines label) < lines.length := by
  obtain ⟨raw, hraw, hlabel⟩ := List.mem_filterMap.mp h
  exact List.findIdx_lt_length_of_exists ⟨raw, hraw, defines_iff.mpr hlabel⟩

/-- A label of lines is found where it is defined first. -/
theorem findIdx?_defines {label : Text} {lines : List Text} (h : label ∈ labels lines) :
    lines.findIdx? (defines label) = some (lines.findIdx (defines label)) :=
  List.findIdx?_eq_some_iff_findIdx_eq.mpr ⟨findIdx_defines_lt h, rfl⟩

theorem findIdx?_defines_none {label : Text} {lines : List Text} (h : label ∉ labels lines) :
    lines.findIdx? (defines label) = none := by
  rw [List.findIdx?_eq_none_iff]
  intro raw hraw
  rw [← Bool.not_eq_true, defines_iff]
  exact fun hlabel => h (List.mem_filterMap.mpr ⟨raw, hraw, hlabel⟩)

theorem count_start {raw : Text} {st : Statement} (hst : statement? raw = some st)
    (ho : st.operation = .directive .start) (c : Nat) : count c raw = st.loadAddress := by
  unfold count
  rw [hst]
  exact if_pos ho

theorem count_plain {raw : Text} {st : Statement} (hst : statement? raw = some st)
    (ho : st.operation ≠ .directive .start) (c : Nat) : count c raw = c + st.bytes := by
  unfold count
  rw [hst]
  exact if_neg ho

theorem count_remark {raw : Text} (h : statement? raw = none) (c : Nat) : count c raw = c := by
  unfold count
  rw [h]

/-- Lines without START count up their bytes. -/
theorem countFrom_eq_extent {lines : List Text} (h : ∀ raw ∈ lines, isStart raw = false) (c : Nat) :
    countFrom c lines = c + extent lines := by
  induction lines generalizing c with
  | nil => rfl
  | cons raw rest ih =>
    rw [List.forall_mem_cons] at h
    rw [countFrom_cons, ih h.2, extent_cons]
    cases hst : statement? raw with
    | none =>
      rw [count_remark hst, Option.map_none, Option.getD_none, Nat.zero_add]
    | some st =>
      have ho : st.operation ≠ .directive .start := by
        have := h.1
        rwa [isStart, holds_of_statement hst, decide_eq_false_iff_not] at this
      rw [count_plain hst ho, Option.map_some, Option.getD_some, Nat.add_assoc]

theorem addressAt_succ {lines : List Text} {i : Nat} {raw : Text} (h : lines[i]? = some raw) :
    addressAt lines (i + 1) = count (addressAt lines i) raw := by
  unfold addressAt
  rw [List.take_add_one, h, countFrom_append]
  rfl

end Source

open Source

/-! ## One line -/

namespace Layout

/-- The table with the label of a statement, if it has one, at the counter. -/
def enter (l : Layout) (location : Location) (st : Statement) : SymbolTable :=
  match st.label with
  | none => l.symbols
  | some label =>
    (l.symbols.define { name := label, address := l.final, location := location }).1

/-- The layout behind a line. -/
def behind (l : Layout) (line : Line) : Layout :=
  match statement? line.raw with
  | none => l
  | some st =>
    if st.operation = .directive .start then
      { l with load := st.loadAddress, final := st.loadAddress, name := st.label.getD [] }
    else { l with symbols := l.enter line.location st, final := l.final + st.bytes }

/-- Where duplicates are rejected, the table does not have the label yet. -/
def Admits (options : Options) (l : Layout) (label : Option Text) : Prop :=
  options.rejectDuplicates = true → ∀ name, label = some name → l.symbols.find? name = none

end Layout

/-- A table that has a label already is left as it is. -/
theorem SymbolTable.define_of_some {t : SymbolTable} {s existing : Symbol}
    (h : t.find? s.name = some existing) : t.define s = (t, some existing) := by
  unfold define
  rw [h]

theorem SymbolTable.define_of_none {t : SymbolTable} {s : Symbol} (h : t.find? s.name = none) :
    t.define s = ({ symbols := t.symbols ++ [s] }, none) := by
  unfold define
  rw [h]

/-- The first definition of a name is the one that stays. -/
theorem SymbolTable.find?_define (t : SymbolTable) (s : Symbol) (name : Text) :
    (t.define s).1.find? name = (t.find? name).or (if s.name = name then some s else none) := by
  unfold define
  cases h : t.find? s.name with
  | some existing =>
    by_cases hn : s.name = name
    · rw [hn] at h
      simp only [h, Option.some_or]
    · simp only [hn, if_false, Option.or_none]
  | none =>
    simp only [find?, List.find?_append, List.find?_singleton, decide_eq_true_eq]

theorem Layout.enter_find? (l : Layout) (location : Location) (st : Statement) (name : Text) :
    (l.enter location st).find? name = (l.symbols.find? name).or
      (if st.label = some name then
        some { name, address := l.final, location := location } else none) := by
  unfold enter
  split
  · rename_i hl
    simp [hl]
  · rename_i label hl
    rw [SymbolTable.find?_define, hl]
    simp only [Option.some.injEq]
    by_cases hn : label = name
    · simp only [hn]
    · simp only [hn, if_false]

namespace Scan

variable {options : Options} {location : Location} {st : Statement} {s s' : Scan}

/-- The label of a statement, if it has one, entered by the rules of the options. -/
def enterLabel (options : Options) (location : Location) (st : Statement) (s : Scan) :
    Except Fault Scan :=
  match st.label with
  | none => .ok s
  | some label => s.define options location st label

/-- What entering a label comes to. It fails only on a label that the table has, where duplicates
    are rejected. -/
theorem enterLabel_cases (s : Scan) (options : Options) (location : Location) (st : Statement) :
    (∃ s', s.enterLabel options location st = .ok s' ∧ s.layout.Admits options st.label ∧
      s'.layout = { s.layout with symbols := s.layout.enter location st }) ∨
    ∃ f, s.enterLabel options location st = .error f ∧ f.cause.category ≠ .phase ∧
      ¬ s.layout.Admits options st.label := by
  unfold enterLabel Layout.enter
  cases st.label with
  | none =>
    have hadmits : s.layout.Admits options none := nofun
    exact .inl ⟨s, rfl, hadmits, rfl⟩
  | some label =>
    simp only [define]
    cases hf : s.layout.symbols.find? label with
    | none =>
      have hadmits : s.layout.Admits options (some label) := by
        intro _ name hname
        rwa [← Option.some.inj hname]
      have hdefine := SymbolTable.define_of_none
        (s := { name := label, address := s.layout.final, location := some location }) hf
      simp only [hdefine]
      exact .inl ⟨_, rfl, hadmits, rfl⟩
    | some existing =>
      have hdefine := SymbolTable.define_of_some
        (s := { name := label, address := s.layout.final, location := some location }) hf
      simp only [hdefine]
      cases hd : options.rejectDuplicates with
      | false =>
        have hadmits : s.layout.Admits options (some label) :=
          fun h => absurd (hd.symm.trans h) Bool.false_ne_true
        exact .inl ⟨_, rfl, hadmits, rfl⟩
      | true =>
        refine .inr ⟨_, rfl, by simp [Cause.category], fun hadmits => ?_⟩
        have hnone := hadmits hd label rfl
        rw [hf] at hnone
        cases hnone

theorem statement_start (h : st.operation = .directive .start) (kind : LineKind) :
    s.statement options location kind st = s.stop st.startAddress >>= fun address =>
      .ok { s with layout := { s.layout with
        load := address, final := address, name := st.label.getD [] } } := by
  unfold statement
  rw [if_pos h]
  rfl

/-- A statement that is no START enters its label, then counts its bytes. -/
theorem statement_plain (h : st.operation ≠ .directive .start) (kind : LineKind) :
    s.statement options location kind st =
      s.stop (s.enterLabel options location st) >>= fun s₁ =>
        s₁.stop (st.next kind s₁.layout.final) >>= fun next =>
          .ok { s₁ with layout := { s₁.layout with final := next } } := by
  unfold statement enterLabel
  rw [if_neg h]
  cases st.label <;> rfl

/-- A step reads its line below the limit and hands its statement on. -/
theorem step_readable {line : Line} (hb : s.layout.final < options.maxAddress)
    (hr : Readable line.raw) :
    s.step options line = match statement? line.raw with
      | none => .ok s
      | some st =>
        s.statement options line.location (LineKind.of line.raw) (st.place line.location) := by
  unfold step
  rw [if_neg (by omega)]
  simp only [read_readable hr]
  cases statement? line.raw <;> rfl

theorem step_unreadable {line : Line} (hb : s.layout.final < options.maxAddress)
    (hr : ¬ Readable line.raw) :
    ∃ f, s.step options line = s.stop (.error f) ∧ f.cause.category = .missing := by
  obtain ⟨f, he, hf⟩ := read_unreadable hr (some line.location)
  refine ⟨f, ?_, hf⟩
  unfold step
  rw [if_neg (by omega)]
  simp only [he]
  rfl

theorem step_out_of_bounds (line : Line) (hb : options.maxAddress ≤ s.layout.final) :
    ∃ f, s.step options line = s.stop (.error f) ∧ f.cause.category = .memoryBounds := by
  unfold step
  rw [if_pos hb]
  exact ⟨_, rfl, rfl⟩

/-- What taking in a statement comes to. A failure is no phase fault. -/
theorem statement_cases (s : Scan) (options : Options) (location : Location) (kind : LineKind)
    (st : Statement) :
    (∃ s', s.statement options location kind st = .ok s' ∧
      (st.Sizable ∧ s.layout.Admits options st.defined) ∧ s'.layout =
      if st.operation = .directive .start then
        { s.layout with load := st.loadAddress, final := st.loadAddress, name := st.label.getD [] }
      else
        { s.layout with
          symbols := s.layout.enter location st, final := s.layout.final + st.bytes }) ∨
    ∃ i, s.statement options location kind st = .error i ∧ i.fault.cause.category ≠ .phase ∧
      ¬ (st.Sizable ∧ s.layout.Admits options st.defined) := by
  unfold Statement.defined
  by_cases h : st.operation = .directive .start
  · rw [statement_start h, if_pos h, if_pos h]
    by_cases hs : st.Sizable
    · rw [Statement.startAddress_sizable h hs]
      exact .inl ⟨_, rfl, ⟨hs, fun _ name hnone => by cases hnone⟩, rfl⟩
    · obtain ⟨f, he, hf⟩ := Statement.startAddress_unsizable h hs
      rw [he]
      exact .inr ⟨_, rfl, hf, fun hboth => hs hboth.1⟩
  · rw [statement_plain h, if_neg h, if_neg h]
    rcases enterLabel_cases s options location st with ⟨s₁, hl, ha, hlay⟩ | ⟨f, hl, hf, ha⟩
    · rw [hl]
      by_cases hs : st.Sizable
      · refine .inl ⟨{ s₁ with layout := { s₁.layout with final := s₁.layout.final + st.bytes } },
          ?_, ⟨hs, ha⟩, ?_⟩
        · show s₁.stop (st.next kind s₁.layout.final) >>= _ = _
          rw [Statement.next_sizable h hs]
          rfl
        · rw [hlay]
      · obtain ⟨f, he, hf⟩ := Statement.next_unsizable h hs kind s₁.layout.final
        refine .inr ⟨{ fault := f, notices := s₁.notices }, ?_, hf, fun hboth => hs hboth.1⟩
        show s₁.stop (st.next kind s₁.layout.final) >>= _ = _
        rw [he]
        rfl
    · rw [hl]
      exact .inr ⟨_, rfl, hf, fun hboth => ha hboth.2⟩

/-- What a step comes to. It succeeds exactly below the limit, on a line that can be laid out and
    whose label the options let in. -/
theorem step_cases (s : Scan) (options : Options) (line : Line) :
    (∃ s', s.step options line = .ok s' ∧ (s.layout.final < options.maxAddress ∧
      Layable line.raw ∧ s.layout.Admits options (label? line.raw)) ∧
      s'.layout = s.layout.behind line) ∨
    ∃ i, s.step options line = .error i ∧ i.fault.cause.category ≠ .phase ∧
      ¬ (s.layout.final < options.maxAddress ∧ Layable line.raw ∧
        s.layout.Admits options (label? line.raw)) := by
  by_cases hb : s.layout.final < options.maxAddress
  · by_cases hr : Readable line.raw
    · rw [step_readable hb hr]
      unfold Layout.behind label?
      cases hst : statement? line.raw with
      | none =>
        have hlay : Layable line.raw := ⟨hr, fun st h => by rw [hst] at h; cases h⟩
        exact .inl ⟨s, rfl, ⟨hb, hlay, fun _ name hnone => by cases hnone⟩, rfl⟩
      | some st =>
        have hlay : Layable line.raw ↔ st.Sizable := by
          refine ⟨fun h => h.sizable st hst, fun h => ⟨hr, ?_⟩⟩
          intro st' hst'
          rw [← Option.some.inj (hst.symm.trans hst')]
          exact h
        rcases statement_cases s options line.location (LineKind.of line.raw)
          (st.place line.location) with ⟨s', he, hs, hl⟩ | ⟨i, he, hf, hs⟩
        · exact .inl ⟨s', he, ⟨hb, hlay.mpr hs.1, hs.2⟩, hl⟩
        · exact .inr ⟨i, he, hf, fun h => hs ⟨hlay.mp h.2.1, h.2.2⟩⟩
    · obtain ⟨f, he, hf⟩ := step_unreadable hb hr
      exact .inr ⟨_, he, by rw [hf]; simp, fun h => hr h.2.1.readable⟩
  · obtain ⟨f, he, hf⟩ := step_out_of_bounds line (Int.not_lt.mp hb)
    exact .inr ⟨_, he, by rw [hf]; simp, fun h => hb h.1⟩

end Scan

/-! ## Whole sources -/

namespace Source

/-- Lines that can be laid out one after the other, each of them below the limit. -/
def Fits (limit : Int) : (counter : Nat) → List Text → Prop
  | _, [] => True
  | c, raw :: rest => ((c : Int) < limit ∧ Layable raw) ∧ Fits limit (count c raw) rest

theorem fits_iff {limit : Int} {c : Nat} {lines : List Text} :
    Fits limit c lines ↔ (∀ raw ∈ lines, Layable raw) ∧
      ∀ i, i < lines.length → (countFrom c (lines.take i) : Int) < limit := by
  induction lines generalizing c with
  | nil => simp [Fits]
  | cons raw rest ih =>
    rw [Fits, ih, List.forall_mem_cons]
    constructor
    · rintro ⟨⟨hb, hl⟩, hr, hi⟩
      refine ⟨⟨hl, hr⟩, fun i hlt => ?_⟩
      cases i with
      | zero => exact hb
      | succ i => exact hi i (by simpa using hlt)
    · rintro ⟨⟨hl, hr⟩, hi⟩
      refine ⟨⟨hi 0 (by simp), hl⟩, hr, fun i hlt => ?_⟩
      exact hi (i + 1) (by simpa using hlt)

theorem fits_append {limit : Int} {c : Nat} {before after : List Text} :
    Fits limit c (before ++ after) ↔
      Fits limit c before ∧ Fits limit (countFrom c before) after := by
  induction before generalizing c with
  | nil => exact (and_iff_right trivial).symm
  | cons raw rest ih => rw [List.cons_append, Fits, Fits, ih, countFrom_cons, ← and_assoc]

/-- Without START, lines that fit do so from a lower counter. -/
theorem Fits.lower {limit : Int} {c c' : Nat} {lines : List Text} (h : Fits limit c lines)
    (hstart : ∀ raw ∈ lines, isStart raw = false) (hc : c' ≤ c) : Fits limit c' lines := by
  rw [fits_iff] at h ⊢
  refine ⟨h.1, fun i hi => ?_⟩
  have hbefore : ∀ raw ∈ lines.take i, isStart raw = false :=
    fun raw hraw => hstart raw (List.mem_of_mem_take hraw)
  have hlt := h.2 i hi
  rw [countFrom_eq_extent hbefore] at hlt ⊢
  omega

/-- The entry of a label: its first defining line, at the counter before that line. -/
def definition? (label : Text) : (counter : Nat) → List Line → Option Symbol
  | _, [] => none
  | c, line :: rest =>
    if defines label line.raw then
      some { name := label, address := c, location := line.location }
    else definition? label (count c line.raw) rest

theorem definition?_eq (label : Text) (c : Nat) (source : List Line) :
    definition? label c source =
      (source.findIdx? fun l => defines label l.raw).bind fun i => source[i]?.map fun line =>
        { name := label, address := countFrom c ((source.take i).map Line.raw),
          location := line.location } := by
  induction source generalizing c with
  | nil => rfl
  | cons line rest ih =>
    rw [definition?, List.findIdx?_cons]
    by_cases hd : defines label line.raw = true
    · simp [hd]
    · rw [if_neg hd, if_neg hd, ih, Option.bind_map]
      rfl

end Source

namespace Layout

theorem behind_final {l : Layout} {c : Nat} (h : l.final = c) (line : Line) :
    (l.behind line).final = count c line.raw := by
  unfold behind count
  cases statement? line.raw with
  | none => exact h
  | some st =>
    by_cases hs : st.operation = .directive .start
    · simp only [hs, if_true]
    · simp only [hs, if_false, h]
      omega

theorem behind_find? {l : Layout} {c : Nat} (h : l.final = c) (line : Line) (label : Text) :
    (l.behind line).symbols.find? label = (l.symbols.find? label).or
      (if defines label line.raw then
        some { name := label, address := c, location := line.location } else none) := by
  unfold behind defines
  cases statement? line.raw with
  | none => simp
  | some st =>
    by_cases hs : st.operation = .directive .start
    · simp [hs]
    · have hd : decide (st.operation ≠ .directive .start ∧ st.label = some label) =
          decide (st.label = some label) := by simp [hs]
      simp only [hs, if_false, Option.any_some, hd, decide_eq_true_eq, enter_find?, h]

theorem foldl_behind_final {l : Layout} {c : Nat} (h : l.final = c) (source : List Line) :
    (source.foldl behind l).final = countFrom c (source.map Line.raw) := by
  induction source generalizing l c with
  | nil => exact h
  | cons line rest ih => exact ih (behind_final h line)

/-- The entry of a label behind some lines: the one it had, or its first definition there. -/
theorem foldl_behind_find? {l : Layout} {c : Nat} (h : l.final = c) (source : List Line)
    (label : Text) :
    (source.foldl behind l).symbols.find? label =
      (l.symbols.find? label).or (definition? label c source) := by
  induction source generalizing l c with
  | nil => simp [definition?]
  | cons line rest ih =>
    rw [List.foldl_cons, ih (behind_final h line), behind_find? h, definition?, Option.or_assoc]
    congr 1
    split <;> simp

/-- Labels that can be entered one after the other, none of them for the second time. -/
def Free (l : Layout) (names : List Text) : Prop :=
  names.Nodup ∧ ∀ name ∈ names, l.symbols.find? name = none

/-- Once the label of a line is entered, those of the lines behind it must differ from it too. -/
theorem free_cons {l : Layout} {c : Nat} (hc : l.final = c) {line : Line} {lines : List Text}
    (ha : ∀ name, label? line.raw = some name → l.symbols.find? name = none) :
    l.Free (labels (line.raw :: lines)) ↔ (l.behind line).Free (labels lines) := by
  have hbehind : ∀ name, (l.behind line).symbols.find? name = none ↔
      label? line.raw ≠ some name ∧ l.symbols.find? name = none := by
    intro name
    rw [behind_find? hc, Option.or_eq_none_iff, and_comm, ne_eq, ← defines_iff]
    simp
  unfold Free
  rw [labels_cons]
  simp only [hbehind, forall_and]
  cases hl : label? line.raw with
  | none => simp
  | some label =>
    have hfresh : label ∉ labels lines ↔ ∀ name ∈ labels lines, some label ≠ some name := by
      simp only [ne_eq, Option.some.injEq]
      exact ⟨fun h name hm he => h (he ▸ hm), fun h hm => h label hm rfl⟩
    have hlabel := ha label hl
    rw [Option.toList_some, List.singleton_append, List.nodup_cons, List.forall_mem_cons, hfresh]
    tauto

end Layout

namespace Scan

variable {s : Scan} {c : Nat}

/-- What a run comes to, from a table that may have labels already. -/
theorem run_cases (options : Options) (hc : s.layout.final = c) (source : List Line) :
    (∃ s', source.foldlM (step options) s = .ok s' ∧
      (Fits options.maxAddress c (source.map Line.raw) ∧ (options.rejectDuplicates = true →
        s.layout.Free (labels (source.map Line.raw)))) ∧
      s'.layout = source.foldl Layout.behind s.layout) ∨
    ∃ i, source.foldlM (step options) s = .error i ∧ i.fault.cause.category ≠ .phase ∧
      ¬ (Fits options.maxAddress c (source.map Line.raw) ∧ (options.rejectDuplicates = true →
        s.layout.Free (labels (source.map Line.raw)))) := by
  induction source generalizing s c with
  | nil => exact .inl ⟨s, rfl, ⟨trivial, fun _ => ⟨.nil, nofun⟩⟩, rfl⟩
  | cons line rest ih =>
    rw [List.foldlM_cons, List.map_cons, Fits, ← hc]
    rcases step_cases s options line with ⟨s₁, he, ⟨hb, hl, ha⟩, hlay⟩ | ⟨i, he, hf, hno⟩
    · have hc₁ : s₁.layout.final = count c line.raw := by
        rw [hlay]
        exact Layout.behind_final hc line
      have hfree : (options.rejectDuplicates = true →
            s.layout.Free (labels (line.raw :: rest.map Line.raw))) ↔
          (options.rejectDuplicates = true → s₁.layout.Free (labels (rest.map Line.raw))) := by
        refine forall_congr' fun hd => ?_
        rw [hlay]
        exact Layout.free_cons hc (ha hd)
      rw [he, hfree]
      rcases ih hc₁ with ⟨s', hr, hcond, hrest⟩ | ⟨i, hr, hf, hno⟩
      · exact .inl ⟨s', hr, ⟨⟨⟨hb, hl⟩, hcond.1⟩, hcond.2⟩, by rw [hrest, hlay]; rfl⟩
      · exact .inr ⟨i, hr, hf, fun h => hno ⟨h.1.2, h.2⟩⟩
    · rw [he]
      refine .inr ⟨i, rfl, hf, fun h => hno ⟨h.1.1.1, h.1.1.2, fun hd name hname => ?_⟩⟩
      refine (h.2 hd).2 name ?_
      rw [labels_cons, hname]
      exact List.mem_cons_self

end Scan

section Layouts

variable {options : Options} {source : List Line} {s : Scan}

/-- What the first pass comes to: it succeeds exactly on lines that fit and, where duplicates are
    rejected, define no label twice. -/
theorem layOut_cases (options : Options) (source : List Line) :
    (∃ s, layOut options source = .ok s ∧
      (Fits options.maxAddress 0 (source.map Line.raw) ∧ (options.rejectDuplicates = true →
        (labels (source.map Line.raw)).Nodup)) ∧
      s.layout = source.foldl Layout.behind {}) ∨
    ∃ i, layOut options source = .error i ∧ i.fault.cause.category ≠ .phase ∧
      ¬ (Fits options.maxAddress 0 (source.map Line.raw) ∧ (options.rejectDuplicates = true →
        (labels (source.map Line.raw)).Nodup)) := by
  have hfree : ({} : Layout).Free (labels (source.map Line.raw)) ↔
      (labels (source.map Line.raw)).Nodup := and_iff_left fun _ _ => rfl
  have hrun := Scan.run_cases (s := {}) (c := 0) options rfl source
  rw [hfree] at hrun
  exact hrun

theorem layOut_ok (h : layOut options source = .ok s) :
    (Fits options.maxAddress 0 (source.map Line.raw) ∧ (options.rejectDuplicates = true →
      (labels (source.map Line.raw)).Nodup)) ∧ s.layout = source.foldl Layout.behind {} := by
  rcases layOut_cases options source with ⟨s', hs, hcond⟩ | ⟨i, hi, -⟩
  · rw [hs] at h
    cases h
    exact hcond
  · rw [hi] at h
    cases h

theorem layOut_layout (h : layOut options source = .ok s) :
    s.layout = source.foldl Layout.behind {} := (layOut_ok h).2

theorem layOut_fits (h : layOut options source = .ok s) :
    Fits options.maxAddress 0 (source.map Line.raw) := (layOut_ok h).1.1

theorem layOut_error {i : Interrupted} (h : layOut options source = .error i) :
    i.fault.cause.category ≠ .phase := by
  rcases layOut_cases options source with ⟨s, hs, -⟩ | ⟨j, hj, hf, -⟩
  · rw [hs] at h
    cases h
  · rw [hj] at h
    cases h
    exact hf

/-- The counter behind a source is what its lines count up to. -/
theorem layOut_final (h : layOut options source = .ok s) :
    s.layout.final = countFrom 0 (source.map Line.raw) := by
  rw [layOut_layout h]
  exact Layout.foldl_behind_final rfl source

/-- The table of a source has the first definition of every label. -/
theorem layOut_find? (h : layOut options source = .ok s) (label : Text) :
    s.layout.symbols.find? label = definition? label 0 source := by
  rw [layOut_layout h, Layout.foldl_behind_find? rfl]
  rfl

/-- The lines before any point of a source that can be laid out can be laid out. -/
theorem layOut_before {before after : List Line} (h : layOut options (before ++ after) = .ok s) :
    ∃ s₁, layOut options before = .ok s₁ := by
  unfold layOut at h ⊢
  rw [List.foldlM_append] at h
  cases hb : before.foldlM (Scan.step options) {} with
  | error i => rw [hb] at h; cases h
  | ok s₁ => exact ⟨s₁, rfl⟩

end Layouts

/-! ## Numbered lines -/

section Numbered

variable {file : Text} {lines : List Text}

@[simp] theorem numberLines_raw (file : Text) (lines : List Text) :
    (numberLines file lines).map Line.raw = lines := by
  unfold numberLines
  rw [List.map_map]
  exact List.zipIdx_map_fst 1 lines

theorem numberLines_getElem? (file : Text) (lines : List Text) (i : Nat) :
    (numberLines file lines)[i]? =
      lines[i]?.map fun raw => { location := { file, line := (i : Int) + 1 }, raw } := by
  unfold numberLines
  rw [List.getElem?_map, List.getElem?_zipIdx, Option.map_map]
  congr 1
  funext raw
  simp [Int.add_comm]

theorem numberLines_take (file : Text) (lines : List Text) (k : Nat) :
    (numberLines file lines).take k = numberLines file (lines.take k) := by
  apply List.ext_getElem?
  intro i
  rw [numberLines_getElem?, List.getElem?_take, List.getElem?_take, numberLines_getElem?]
  split <;> rfl

/-- The first pass over the lines before one counts up to the address of that line. -/
theorem layOut_take {options : Options} {s : Scan}
    (h : layOut options (numberLines file lines) = .ok s) (i : Nat) :
    ∃ s₁, layOut options (numberLines file (lines.take i)) = .ok s₁ ∧
      s₁.layout.final = addressAt lines i := by
  rw [← List.take_append_drop i (numberLines file lines), numberLines_take] at h
  obtain ⟨s₁, hs₁⟩ := layOut_before h
  refine ⟨s₁, hs₁, ?_⟩
  rw [layOut_final hs₁, numberLines_raw]
  rfl

/-- A line of a numbered source is found again by its place. -/
theorem before_eq_of_location {before before' after after' : List Line} {line line' : Line}
    (h : numberLines file lines = before ++ line :: after)
    (h' : numberLines file lines = before' ++ line' :: after')
    (hl : line.location = line'.location) : before = before' := by
  have key : ∀ {b a : List Line} {l : Line}, numberLines file lines = b ++ l :: a →
      l.location = { file, line := (b.length : Int) + 1 } := by
    intro b a l hs
    have hget : (numberLines file lines)[b.length]? = some l := by rw [hs]; simp
    rw [numberLines_getElem?] at hget
    obtain ⟨raw, -, hraw⟩ := Option.map_eq_some_iff.mp hget
    rw [← hraw]
  have hlen : before.length = before'.length := by
    rw [key h, key h'] at hl
    injection hl with _ hline
    omega
  exact (List.append_inj (h.symm.trans h') hlen).1

/-- A label whose entry bears the place of a line has the address of that line. -/
theorem address_of_location {options : Options} {s : Scan} {before after : List Line}
    {line : Line} {label : Text} {symbol : Symbol}
    (hs : numberLines file lines = before ++ line :: after)
    (h : layOut options (numberLines file lines) = .ok s)
    (hf : s.layout.symbols.find? label = some symbol)
    (hl : symbol.location = some line.location) :
    symbol.address = countFrom 0 (before.map Line.raw) := by
  rw [layOut_find? h, definition?_eq] at hf
  obtain ⟨i, -, hi⟩ := Option.bind_eq_some_iff.mp hf
  obtain ⟨line', hget, rfl⟩ := Option.map_eq_some_iff.mp hi
  have hlt : i < (numberLines file lines).length := (List.getElem?_eq_some_iff.mp hget).1
  have hline : (numberLines file lines)[i] = line' := (List.getElem?_eq_some_iff.mp hget).2
  have hsplit : numberLines file lines = (numberLines file lines).take i ++
      line' :: (numberLines file lines).drop (i + 1) := by
    rw [← hline, List.getElem_cons_drop, List.take_append_drop]
  rw [before_eq_of_location hsplit hs (Option.some.inj hl)]

/-- An operand is resolved to the address of the first line that defines it. -/
theorem addressOf_eq {options : Options} {s : Scan}
    (h : layOut options (numberLines file lines) = .ok s) (label : Text) :
    s.layout.symbols.addressOf label 0 = labelAddress lines label := by
  have hidx : ((numberLines file lines).findIdx? fun l => defines label l.raw) =
      lines.findIdx? (defines label) := by
    conv => rhs; rw [← numberLines_raw file lines, List.findIdx?_map]
    rfl
  unfold SymbolTable.addressOf labelAddress addressAt
  rw [layOut_find? h, definition?_eq, hidx]
  cases hi : lines.findIdx? (defines label) with
  | none => rfl
  | some i =>
    have hlt : i < lines.length := by
      have := List.findIdx?_eq_some_iff_findIdx_eq.mp hi
      exact this.1
    rw [Option.bind_some, numberLines_getElem?, List.getElem?_eq_getElem hlt, numberLines_take,
      numberLines_raw]
    rfl

end Numbered

end TwoPass
