import TwoPass.Assembly.Run
import TwoPass.Proofs.Encoding

/-
  The second pass as a pure function of its lines. `Generation.behind` is the generation behind
  one line and `Generation.through` the one behind lines, both without the notices. `step_cases`
  says when a step of the pass gives `behind`, and `run_cases` when the pass gives `through` up to
  END: exactly where the lines are `Assembled` and those up to END `Resolved`. The labels of a
  source that the first pass laid out are `InPhase`, so no phase fault is ever among the failures.
-/

namespace TwoPass

open Source Object

/-! ## One line -/

/-- What a statement up to END must be like; `started` says whether START was met. -/
def Statement.Allowed (started : Bool) (st : Statement) : Prop :=
  (st.operation = .directive .start → started = false) ∧
  (st.operation = .directive .finish → started = true) ∧ st.Encodable

def Source.Allowed (started : Bool) (raw : Text) : Prop :=
  ∀ st, statement? raw = some st → st.Allowed started

def Source.Resolved (options : Options) (symbols : SymbolTable) (raw : Text) : Prop :=
  ∀ st, statement? raw = some st → st.Resolved options symbols

theorem Source.allowed_iff {started : Bool} {raw : Text} : Allowed started raw ↔
    (isStart raw = true → started = false) ∧ (isEnd raw = true → started = true) ∧
      ∀ st, statement? raw = some st → st.Encodable := by
  unfold Allowed Statement.Allowed
  rw [holds_iff, holds_iff]
  constructor
  · intro h
    refine ⟨?_, ?_, fun st hst => (h st hst).2.2⟩
    · rintro ⟨st, hst, ho⟩
      exact (h st hst).1 ho
    · rintro ⟨st, hst, ho⟩
      exact (h st hst).2.1 ho
  · rintro ⟨hs, he, hc⟩ st hst
    exact ⟨fun ho => hs ⟨st, hst, ho⟩, fun ho => he ⟨st, hst, ho⟩, hc st hst⟩

namespace Generation

/-- Generation behind START. -/
def started (g : Generation) (final line : Int) (st : Statement) : Generation :=
  { g with
    program := g.program.setHeader
      { name := st.label.getD [], load := st.loadAddress, length := final - st.loadAddress }
    load := some (st.loadAddress : Int)
    counter := st.loadAddress }.list
      { line, address := some (st.loadAddress : Int), text := st.text }

/-- Generation behind END. -/
def ended (g : Generation) (line : Int) (st : Statement) : Generation :=
  { g with program := g.program.setEnd (g.load.getD 0) }.list
    { line, address := some g.counter, text := st.text }

/-- Generation behind a statement that is neither. -/
def emitted (address : Text → Nat) (g : Generation) (line : Int) (st : Statement) : Generation :=
  { g with
    program := (if st.code address = [] then g.program
      else g.program.addText (st.code address)).addModifications
        (st.relocated.toList.map fun symbol =>
          { start := g.load.getD 0, halfBytes := addressHalfBytes, symbol })
    counter := g.counter + st.bytes }.list
      { line, address := some g.counter, code := st.code address, text := st.text }

/-- Generation behind a statement. -/
def taken (final : Int) (address : Text → Nat) (g : Generation) (line : Int) (st : Statement) :
    Generation :=
  if st.operation = .directive .start then g.started final line st
  else if st.operation = .directive .finish then g.ended line st
  else g.emitted address line st

/-- Generation behind a line. -/
def behind (final : Int) (address : Text → Nat) (g : Generation) (line : Line) : Generation :=
  match statement? line.raw with
  | none =>
    g.list { line := line.location.line, address := none, text := Text.dropLineEnd line.raw }
  | some st => g.taken final address line.location.line st

variable {g : Generation} {st : Statement} {options : Options} {address : Text → Nat}

theorem start_first (ho : st.operation = .directive .start) (hs : st.Sizable) (hl : g.load = none)
    (final line : Int) : g.start final line st = .ok (g.started final line st) := by
  unfold start
  rw [hl, Statement.startAddress_sizable ho hs]
  rfl

theorem start_again (hl : g.load.isSome = true) (final line : Int) (st : Statement) :
    g.start final line st = g.stop (.error (st.fault .startRepeated)) := by
  unfold start
  rw [if_pos hl]

theorem finish_loaded (hl : g.load.isSome = true) (location : Location) (st : Statement) :
    g.finish location st = .ok { g.ended location.line st with
      notices := g.notices ++ [.endReached location] } := by
  obtain ⟨program, load, counter, listing, notices⟩ := g
  obtain ⟨address, rfl⟩ := Option.isSome_iff_exists.mp hl
  rfl

theorem finish_unloaded (hl : g.load = none) (location : Location) (st : Statement) :
    g.finish location st = g.stop (.error (st.fault .endBeforeStart)) := by
  unfold finish
  rw [hl]

/-- A label whose entry agrees with the counter passes. -/
theorem checkPhase_ok {symbols : SymbolTable} {location : Location} (st : Statement)
    (hp : ∀ label symbol, symbols.find? label = some symbol →
      symbol.location = some location → symbol.address = g.counter) :
    g.checkPhase symbols location st = .ok () := by
  unfold checkPhase
  split
  · rfl
  · split
    · rfl
    · rename_i label _ _ symbol hf
      rw [if_neg fun h => h.2 (hp label symbol hf h.1)]

/-- What emitting a statement comes to. It fails only where encoding does. -/
theorem emit_cases {symbols : SymbolTable} {location : Location} (kind : LineKind)
    (ha : ∀ name, symbols.addressOf name 0 = address name)
    (hp : ∀ label symbol, symbols.find? label = some symbol →
      symbol.location = some location → symbol.address = g.counter)
    (ho : st.operation ≠ .directive .start) (hs : st.Sizable) :
    (∃ n, g.emit options symbols location kind st =
        .ok { g.emitted address location.line st with notices := n } ∧
      st.Encodable ∧ st.Resolved options symbols) ∨
    ∃ f, g.emit options symbols location kind st = g.stop (.error f) ∧
      f.cause.category ≠ .phase ∧ ¬ (st.Encodable ∧ st.Resolved options symbols) := by
  unfold emit
  rw [checkPhase_ok st hp]
  rcases Statement.encode_cases st options location ha with ⟨n, he, hen⟩ | ⟨f, he, hf, hen⟩
  · refine .inl ⟨g.notices ++ n, ?_, hen⟩
    rw [he, Statement.relocation?_eq hen.1]
    simp only [stop, ok_bind, Statement.next_sizable ho hs]
    rfl
  · rw [he]
    exact .inr ⟨f, rfl, hf, hen⟩

/-- A statement taken in by its kind. -/
def take (g : Generation) (options : Options) (layout : Layout) (location : Location)
    (kind : LineKind) (st : Statement) : Except Broken Generation :=
  if st.operation = .directive .start then g.start layout.final location.line st
  else if st.operation = .directive .finish then g.finish location st
  else g.emit options layout.symbols location kind st

/-- A step reads its line and takes in the statement. -/
theorem step_readable {layout : Layout} {line : Line} (hr : Readable line.raw) :
    g.step options layout line = match statement? line.raw with
      | none => .ok (g.list { line := line.location.line, address := none,
                              text := Text.dropLineEnd line.raw })
      | some st =>
        g.take options layout line.location (LineKind.of line.raw) (st.place line.location) := by
  unfold step
  simp only [read_readable hr]
  cases statement? line.raw with
  | none => rfl
  | some st =>
    unfold take
    simp only [Option.map_some, stop, ok_bind]
    split
    · rename_i ho
      rw [if_pos ho]
    · rename_i ho
      rw [if_neg (by rw [ho]; simp), if_pos ho]
    · rename_i hstart hfin
      rw [if_neg hstart, if_neg hfin]

/-- What taking in a statement comes to. -/
theorem take_cases (g : Generation) (options : Options) {layout : Layout} {location : Location}
    (kind : LineKind) {st : Statement}
    (ha : ∀ name, layout.symbols.addressOf name 0 = address name)
    (hp : ∀ label symbol, layout.symbols.find? label = some symbol →
      symbol.location = some location → symbol.address = g.counter)
    (hs : st.Sizable) :
    (∃ n, g.take options layout location kind st =
        .ok { g.taken layout.final address location.line st with notices := n } ∧
      st.Allowed g.load.isSome ∧ st.Resolved options layout.symbols) ∨
    ∃ f, g.take options layout location kind st = g.stop (.error f) ∧
      f.cause.category ≠ .phase ∧
      ¬ (st.Allowed g.load.isSome ∧ st.Resolved options layout.symbols) := by
  unfold take taken
  by_cases hstart : st.operation = .directive .start
  · have hen : st.Encodable := by rw [Statement.Encodable, hstart]; trivial
    have hres : st.Resolved options layout.symbols :=
      Statement.resolved_of_relocated (by rw [Statement.relocated, hstart]) _ _
    have hfin : st.operation ≠ .directive .finish := by rw [hstart]; simp
    rw [if_pos hstart, if_pos hstart]
    cases hload : g.load with
    | none =>
      rw [start_first hstart hs hload]
      exact .inl ⟨g.notices, rfl, ⟨fun _ => rfl, fun h => absurd h hfin, hen⟩, hres⟩
    | some load =>
      rw [start_again (by rw [hload]; rfl)]
      exact .inr ⟨_, rfl, by simp [Statement.fault, Cause.category],
        fun h => by cases h.1.1 hstart⟩
  · rw [if_neg hstart, if_neg hstart]
    by_cases hfin : st.operation = .directive .finish
    · have hen : st.Encodable := by rw [Statement.Encodable, hfin]; trivial
      have hres : st.Resolved options layout.symbols :=
        Statement.resolved_of_relocated (by rw [Statement.relocated, hfin]) _ _
      rw [if_pos hfin, if_pos hfin]
      cases hload : g.load with
      | none =>
        rw [finish_unloaded hload]
        exact .inr ⟨_, rfl, by simp [Statement.fault, Cause.category],
          fun h => by cases h.1.2.1 hfin⟩
      | some load =>
        rw [finish_loaded (by rw [hload]; rfl)]
        exact .inl ⟨_, rfl, ⟨fun h => absurd h hstart, fun _ => rfl, hen⟩, hres⟩
    · rw [if_neg hfin, if_neg hfin]
      rcases emit_cases kind ha hp hstart hs with ⟨n, he, hen⟩ | ⟨f, he, hf, hen⟩
      · exact .inl ⟨n, he, ⟨fun h => absurd h hstart, fun h => absurd h hfin, hen.1⟩, hen.2⟩
      · exact .inr ⟨f, he, hf, fun h => hen ⟨h.1.2.2, h.2⟩⟩

/-- What a step comes to on a line that was laid out. -/
theorem step_cases (g : Generation) (options : Options) {layout : Layout} {line : Line}
    (ha : ∀ name, layout.symbols.addressOf name 0 = address name)
    (hp : ∀ label symbol, layout.symbols.find? label = some symbol →
      symbol.location = some line.location → symbol.address = g.counter)
    (hl : Layable line.raw) :
    (∃ n, g.step options layout line =
        .ok { g.behind layout.final address line with notices := n } ∧
      Allowed g.load.isSome line.raw ∧ Resolved options layout.symbols line.raw) ∨
    ∃ f, g.step options layout line = g.stop (.error f) ∧ f.cause.category ≠ .phase ∧
      ¬ (Allowed g.load.isSome line.raw ∧ Resolved options layout.symbols line.raw) := by
  rw [step_readable hl.readable]
  unfold behind Allowed Resolved
  cases hst : statement? line.raw with
  | none => exact .inl ⟨g.notices, rfl, nofun, nofun⟩
  | some st =>
    have hs : (st.place line.location).Sizable := hl.sizable st hst
    rcases take_cases g options (LineKind.of line.raw) ha hp hs with
      ⟨n, he, hal⟩ | ⟨f, he, hf, hal⟩
    · exact .inl ⟨n, he, fun st' h => by cases h; exact hal.1, fun st' h => by cases h; exact hal.2⟩
    · exact .inr ⟨f, he, hf, fun h => hal ⟨h.1 st rfl, h.2 st rfl⟩⟩

end Generation

/-! ## Lines up to END -/

namespace Source

/-- Lines that END ends, each allowed where it stands. -/
def Assembled : (started : Bool) → List Text → Prop
  | _, [] => False
  | started, raw :: rest =>
    Allowed started raw ∧ (isEnd raw = false → Assembled (started || isStart raw) rest)

/-- Labels whose entry bears the place of a line have the address of that line, where `counter` is
    that of the first one. -/
def InPhase (symbols : SymbolTable) (counter : Nat) (source : List Line) : Prop :=
  ∀ before line after label symbol, source = before ++ line :: after →
    symbols.find? label = some symbol → symbol.location = some line.location →
    symbol.address = countFrom counter (before.map Line.raw)

/-- The lines up to the first END, which is among them. -/
def upToEnd : List Line → List Line
  | [] => []
  | line :: rest => if isEnd line.raw then [line] else line :: upToEnd rest

theorem upToEnd_before (source : List Line) : ∃ after, source = upToEnd source ++ after := by
  induction source with
  | nil => exact ⟨[], rfl⟩
  | cons line rest ih =>
    obtain ⟨after, ha⟩ := ih
    unfold upToEnd
    split
    · exact ⟨rest, rfl⟩
    · exact ⟨after, by rw [List.cons_append, ← ha]⟩

theorem upToEnd_append {before : List Line} (hb : ∀ line ∈ before, isEnd line.raw = false)
    (after : List Line) : upToEnd (before ++ after) = before ++ upToEnd after := by
  induction before with
  | nil => rfl
  | cons line rest ih =>
    rw [List.forall_mem_cons] at hb
    rw [List.cons_append, upToEnd, hb.1, if_neg Bool.false_ne_true, ih hb.2]
    rfl

theorem InPhase.tail {symbols : SymbolTable} {c : Nat} {line : Line} {rest : List Line}
    (h : InPhase symbols c (line :: rest)) : InPhase symbols (count c line.raw) rest := by
  intro before l after label symbol hs hf hl
  rw [h (line :: before) l after label symbol (by rw [hs]; rfl) hf hl, List.map_cons,
    countFrom_cons]

end Source

namespace Generation

variable {final : Int} {address : Text → Nat}

/-- Generation behind lines. -/
def through (final : Int) (address : Text → Nat) (g : Generation) (source : List Line) :
    Generation := source.foldl (behind final address) g

theorem through_nil (g : Generation) : through final address g [] = g := rfl

theorem through_cons (g : Generation) (line : Line) (rest : List Line) :
    through final address g (line :: rest) =
      through final address (g.behind final address line) rest := rfl

theorem through_append (g : Generation) (before after : List Line) :
    through final address g (before ++ after) =
      through final address (through final address g before) after := List.foldl_append

theorem behind_counter {g : Generation} {c : Nat} (h : g.counter = c) (line : Line) :
    (g.behind final address line).counter = count c line.raw := by
  unfold behind count
  cases statement? line.raw with
  | none => exact h
  | some st =>
    dsimp only
    unfold taken
    by_cases hs : st.operation = .directive .start
    · rw [if_pos hs, if_pos hs]
      rfl
    · rw [if_neg hs, if_neg hs]
      split
      · rename_i hf
        have hb : st.bytes = 0 := by rw [Statement.bytes, hf]; rfl
        rw [hb]
        exact h
      · simp only [emitted, list, h]
        omega

theorem behind_load (g : Generation) (line : Line) :
    (g.behind final address line).load.isSome = (g.load.isSome || isStart line.raw) := by
  unfold behind isStart holds
  cases statement? line.raw with
  | none => exact (Bool.or_false _).symm
  | some st =>
    unfold taken
    by_cases hs : st.operation = .directive .start
    · simp [hs, started, list]
    · simp only [hs, if_false, Option.any_some, decide_false, Bool.or_false]
      split <;> rfl

theorem behind_finish (g : Generation) (line : Line) :
    (g.behind final address line).program.finish.isSome =
      (g.program.finish.isSome || isEnd line.raw) := by
  unfold behind isEnd holds
  cases statement? line.raw with
  | none => exact (Bool.or_false _).symm
  | some st =>
    unfold taken
    by_cases hf : st.operation = .directive .finish
    · simp [hf, ended, list, ObjectProgram.setEnd]
    · simp only [hf, if_false, Option.any_some, decide_false, Bool.or_false]
      split
      · rfl
      · unfold emitted
        split <;> rfl

theorem behind_notices (g : Generation) (n : List Notice) (line : Line) :
    ({ g with notices := n }).behind final address line =
      { g.behind final address line with notices := n } := by
  unfold behind
  cases statement? line.raw with
  | none => rfl
  | some st =>
    dsimp only
    unfold taken
    split
    · rfl
    · split <;> rfl

theorem through_notices (g : Generation) (n : List Notice) (source : List Line) :
    through final address { g with notices := n } source =
      { through final address g source with notices := n } := by
  induction source generalizing g with
  | nil => rfl
  | cons line rest ih =>
    rw [through_cons, through_cons, behind_notices, ih]

/-- What the pass comes to on lines that were laid out. Up to a failure it has listed some of the
    lines, in the same way. -/
theorem run_cases (options : Options) (file : Text) {layout : Layout} {source : List Line}
    {c : Nat} {g : Generation} (ha : ∀ name, layout.symbols.addressOf name 0 = address name)
    (hl : ∀ line ∈ source, Layable line.raw) (hp : InPhase layout.symbols c source)
    (hc : g.counter = c) (hf : g.program.finish = none) :
    (∃ n, run options layout file g source =
        .ok { through layout.final address g (upToEnd source) with notices := n } ∧
      Assembled g.load.isSome (source.map Line.raw) ∧
      ∀ line ∈ upToEnd source, Resolved options layout.symbols line.raw) ∨
    ∃ b before after, run options layout file g source = .error b ∧
      b.fault.cause.category ≠ .phase ∧ source = before ++ after ∧
      b.listing = (through layout.final address g before).listing ∧
      ¬ (Assembled g.load.isSome (source.map Line.raw) ∧
        ∀ line ∈ upToEnd source, Resolved options layout.symbols line.raw) := by
  -- The counter of `g` is that of the first line: the phase check compares labels with it.
  induction source generalizing g c with
  | nil =>
    exact .inr ⟨_, [], [], rfl, by simp [Cause.category], rfl, rfl, fun h => h.1⟩
  | cons line rest ih =>
    rw [List.forall_mem_cons] at hl
    have hp₀ : ∀ label symbol, layout.symbols.find? label = some symbol →
        symbol.location = some line.location → symbol.address = g.counter := by
      intro label symbol hfind hloc
      rw [hc, hp [] line rest label symbol rfl hfind hloc]
      rfl
    rw [run, List.map_cons, Assembled, upToEnd]
    rcases step_cases g options ha hp₀ hl.1 with ⟨n, he, hal⟩ | ⟨f, he, hcat, hal⟩
    · rw [he, ok_bind]
      have hfin : (g.behind layout.final address line).program.finish.isSome = isEnd line.raw := by
        rw [behind_finish, hf]
        rfl
      dsimp only
      rw [hfin]
      by_cases hend : isEnd line.raw = true
      · rw [if_pos hend, if_pos hend]
        refine .inl ⟨n, rfl, ⟨hal.1, fun h => by rw [hend] at h; cases h⟩, ?_⟩
        exact List.forall_mem_singleton.mpr hal.2
      · rw [if_neg hend, if_neg hend, List.forall_mem_cons]
        have hend' : isEnd line.raw = false := by simpa using hend
        have hnone : (g.behind layout.final address line).program.finish = none := by
          rw [← Option.isNone_iff_eq_none, ← Option.not_isSome, hfin, hend']
          rfl
        have hnext := ih (g := { g.behind layout.final address line with notices := n })
          hl.2 hp.tail (behind_counter hc line) hnone
        rw [behind_load] at hnext
        rcases hnext with ⟨n', hr, has⟩ | ⟨b, before, after, hr, hcat, hs, hlist, has⟩
        · refine .inl ⟨n', ?_, ⟨hal.1, fun _ => has.1⟩, hal.2, has.2⟩
          rw [hr, through_notices]
          rfl
        · refine .inr ⟨b, line :: before, after, hr, hcat, by rw [hs]; rfl, ?_, ?_⟩
          · rw [hlist, through_notices]
            rfl
          · exact fun h => has ⟨h.1.2 hend', h.2.2⟩
    · rw [he]
      refine .inr ⟨_, [], line :: rest, rfl, hcat, rfl, rfl, fun h => hal ⟨h.1.1, h.2 line ?_⟩⟩
      split <;> exact List.mem_cons_self

end Generation

/-! ## Both passes -/

section Passes

variable {options : Options} {file : Text} {lines : List Text}

theorem inPhase_of_layOut {s : Scan} (h : layOut options (numberLines file lines) = .ok s) :
    InPhase s.layout.symbols 0 (numberLines file lines) :=
  fun _ _ _ _ _ hs hf hl => address_of_location hs h hf hl

/-- The generation behind some lines of a source, which gives every name the address of its label
    in all of `lines`. -/
def generated (lines : List Text) (source : List Line) : Generation :=
  Generation.through (countFrom 0 lines) (labelAddress lines) {} source

theorem generate_cases {s : Scan} (h : layOut options (numberLines file lines) = .ok s) :
    (∃ n, generate options s.layout file (numberLines file lines) =
        .ok { generated lines (upToEnd (numberLines file lines)) with notices := n } ∧
      Assembled false lines ∧
      ∀ line ∈ upToEnd (numberLines file lines), Resolved options s.layout.symbols line.raw) ∨
    ∃ b before after, generate options s.layout file (numberLines file lines) = .error b ∧
      b.fault.cause.category ≠ .phase ∧ numberLines file lines = before ++ after ∧
      b.listing = (generated lines before).listing ∧
      ¬ (Assembled false lines ∧
        ∀ line ∈ upToEnd (numberLines file lines), Resolved options s.layout.symbols line.raw) := by
  have hfinal : s.layout.final = countFrom 0 lines := by
    rw [layOut_final h, numberLines_raw]
  have hl : ∀ line ∈ numberLines file lines, Layable line.raw := by
    intro line hm
    exact (fits_iff.mp (layOut_fits h)).1 _ (List.mem_map_of_mem hm)
  have hrun := Generation.run_cases options file (g := {}) (addressOf_eq h) hl
    (inPhase_of_layOut h) rfl rfl
  rw [numberLines_raw, hfinal] at hrun
  exact hrun

/-- The outcome where both passes succeed. -/
def Outcome.ofPasses (s : Scan) (g : Generation) : Outcome where
  result := .ok { layout := s.layout, program := g.program }
  listing := g.listing
  notices := s.notices ++ [.laidOut s.layout.symbols.size s.layout.load s.layout.final] ++
    g.notices ++ [.generated g.program.text.length g.program.modifications.length]

/-- Both passes over a source succeed. -/
structure Passes (options : Options) (file : Text) (lines : List Text) (s : Scan)
    (g : Generation) : Prop where
  first : layOut options (numberLines file lines) = .ok s
  second : generate options s.layout file (numberLines file lines) = .ok g

theorem Passes.assemble_eq {s : Scan} {g : Generation} (h : Passes options file lines s g) :
    assemble options file lines = .ofPasses s g := by
  unfold assemble
  simp only [h.first, h.second]
  rfl

theorem exists_passes {done : Assembly} (h : (assemble options file lines).result = .ok done) :
    ∃ s g, Passes options file lines s g ∧
      done = { layout := s.layout, program := g.program } := by
  unfold assemble at h
  cases hs : layOut options (numberLines file lines) with
  | error i => simp only [hs, reduceCtorEq] at h
  | ok s =>
    cases hg : generate options s.layout file (numberLines file lines) with
    | error b => simp only [hs, hg, reduceCtorEq] at h
    | ok g =>
      simp only [hs, hg, Except.ok.injEq] at h
      exact ⟨s, g, ⟨hs, hg⟩, h.symm⟩

/-- What the second pass gives where both succeed, and what it asks of the lines. -/
theorem Passes.generated_eq {s : Scan} {g : Generation} (h : Passes options file lines s g) :
    (∃ n, g = { generated lines (upToEnd (numberLines file lines)) with notices := n }) ∧
      Assembled false lines ∧
      ∀ line ∈ upToEnd (numberLines file lines), Resolved options s.layout.symbols line.raw := by
  rcases generate_cases h.first with ⟨n, hg, has⟩ | ⟨b, _, _, hg, -⟩
  · exact ⟨⟨n, Except.ok.inj (h.second.symm.trans hg)⟩, has⟩
  · cases h.second.symm.trans hg

theorem assemble_ok {done : Assembly} (h : (assemble options file lines).result = .ok done) :
    (∃ s, layOut options (numberLines file lines) = .ok s) ∧ Assembled false lines ∧
      done.program = (generated lines (upToEnd (numberLines file lines))).program ∧
      (assemble options file lines).listing =
        (generated lines (upToEnd (numberLines file lines))).listing := by
  obtain ⟨s, g, hpasses, rfl⟩ := exists_passes h
  obtain ⟨⟨n, rfl⟩, has, -⟩ := hpasses.generated_eq
  rw [hpasses.assemble_eq]
  exact ⟨⟨s, hpasses.first⟩, has, rfl, rfl⟩

theorem assemble_layout {done : Assembly} (h : (assemble options file lines).result = .ok done) :
    ∃ s, layOut options (numberLines file lines) = .ok s ∧ s.layout = done.layout := by
  obtain ⟨s, g, hpasses, rfl⟩ := exists_passes h
  exact ⟨s, hpasses.first, rfl⟩

/-- A source is assembled exactly if the first pass lays it out and its lines up to END are allowed
    and resolved by the table of that pass. -/
theorem assemble_isOk_iff (options : Options) (file : Text) (lines : List Text) :
    (∃ done, (assemble options file lines).result = .ok done) ↔
      ∃ s, layOut options (numberLines file lines) = .ok s ∧ Assembled false lines ∧
        ∀ line ∈ upToEnd (numberLines file lines), Resolved options s.layout.symbols line.raw := by
  constructor
  · rintro ⟨done, h⟩
    obtain ⟨s, g, hpasses, -⟩ := exists_passes h
    exact ⟨s, hpasses.first, hpasses.generated_eq.2⟩
  · rintro ⟨s, hs, has⟩
    rcases generate_cases hs with ⟨n, hg, -⟩ | ⟨_, _, _, _, -, -, -, hno⟩
    · have hpasses : Passes options file lines s _ := ⟨hs, hg⟩
      rw [hpasses.assemble_eq]
      exact ⟨_, rfl⟩
    · exact absurd has hno

theorem assemble_lenient (hu : options.rejectUndefined = false)
    (hd : options.rejectDuplicates = false) (hf : Fits options.maxAddress 0 lines)
    (ha : Assembled false lines) : ∃ done, (assemble options file lines).result = .ok done := by
  rw [assemble_isOk_iff]
  rcases layOut_cases options (numberLines file lines) with ⟨s, hs, -⟩ | ⟨i, -, -, hno⟩
  · refine ⟨s, hs, ha, fun line _ st _ h => ?_⟩
    rw [hu] at h
    cases h
  · rw [numberLines_raw] at hno
    refine absurd ⟨hf, fun h => ?_⟩ hno
    rw [hd] at h
    cases h

theorem assemble_error {f : Fault} (h : (assemble options file lines).result = .error f) :
    f.cause.category ≠ .phase := by
  unfold assemble at h
  cases hs : layOut options (numberLines file lines) with
  | error i =>
    simp only [hs, Except.error.injEq] at h
    rw [← h]
    exact layOut_error hs
  | ok s =>
    simp only [hs] at h
    rcases generate_cases hs with ⟨n, hg, -⟩ | ⟨b, _, _, hg, hb, -⟩
    · simp only [hg, reduceCtorEq] at h
    · simp only [hg, Except.error.injEq] at h
      rw [← h]
      exact hb

/-- Whatever the outcome, the listing is that of some lines of a source that was laid out. -/
theorem assemble_listing (options : Options) (file : Text) (lines : List Text) :
    (assemble options file lines).listing = [] ∨
    ∃ s before after, layOut options (numberLines file lines) = .ok s ∧
      numberLines file lines = before ++ after ∧
      (assemble options file lines).listing = (generated lines before).listing := by
  unfold assemble
  cases hs : layOut options (numberLines file lines) with
  | error i => simp only [hs, true_or]
  | ok s =>
    rcases generate_cases hs with ⟨n, hg, -⟩ | ⟨b, before, after, hg, -, hsplit, hlist, -⟩
    · obtain ⟨after, ha⟩ := upToEnd_before (numberLines file lines)
      refine .inr ⟨s, _, after, rfl, ha, ?_⟩
      simp only [hs, hg]
    · refine .inr ⟨s, before, after, rfl, hsplit, ?_⟩
      simp only [hs, hg, hlist]

end Passes

end TwoPass
