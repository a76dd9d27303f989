import TwoPass.Proofs.Failures
import TwoPass.Proofs.Language

/-
  The phase check, for a table and a layout that need not come from the first pass. A line `Binds`
  a label if the table has this label with the place of that line. One step of the second pass is
  `Sound`: what it lists stands at the counter, and so does a label that the line binds; a phase
  fault is `OutOfPhase`, at a line whose label stands elsewhere. Over a run the counter is the one
  of the lines alone, so the lines are `ListedFrom` the counter before them at their addresses,
  however the run ends (`run_sound`). `phase_check_effective` says this of a source.
-/

namespace TwoPass

open Source

/-- Encoding has faults of its own, but none of them is a phase fault. -/
theorem Statement.encode_inPhase (st : Statement) (options : Options) (location : Location)
    (symbols : SymbolTable) :
    FailsOnly (fun f => f.cause.category ≠ .phase) (st.encode options location symbols) := by
  unfold encode
  split
  · refine .bind (fun _ h => constantOperand_error h) fun t _ => ?_
    have hword : FailsOnly (fun cause => cause.category ≠ .phase) (Code.word t) :=
      fun _ h => Code.word_error h
    exact .bind (hword.placed st.location) fun _ _ => .ok _
  · refine .bind (fun _ h => constantOperand_error h) fun t _ => ?_
    have hbyte : FailsOnly (fun cause => cause.category ≠ .phase) (Code.byte t) :=
      fun _ h => Code.byte_error h
    exact .bind (hbyte.placed st.location) fun _ _ => .ok _
  · exact .ok _
  · exact .error (by simp [fault, Cause.category])
  · refine .bind ((st.target_failsOnly options location symbols _).imp fun f hf => ?_)
      fun _ _ => .ok _
    rcases hf with h | h <;> rw [h] <;> decide

/-! ## One line -/

namespace Source

/-- The table has the label of a line, with the place of that line. -/
structure Binds (symbols : SymbolTable) (line : Line) (label : Text) (symbol : Symbol) : Prop where
  named : label? line.raw = some label
  entry : symbols.find? label = some symbol
  place : symbol.location = some line.location

/-- The fault of a line that binds its label to an address other than `counter`. -/
def OutOfPhase (symbols : SymbolTable) (counter : Int) (line : Line) (fault : Fault) : Prop :=
  ∃ label symbol, Binds symbols line label symbol ∧ symbol.address ≠ counter ∧
    fault = { cause := .phase label symbol.address counter, location := line.location }

/-- The entry of a line that is reached at `counter`. -/
structure Lists (symbols : SymbolTable) (counter : Int) (line : Line) (e : ListingEntry) :
    Prop where
  number : e.line = line.location.line
  phase : isEnd line.raw = false → ∀ label symbol, Binds symbols line label symbol →
    e.address = some counter ∧ symbol.address = counter

end Source

namespace Generation

/-- What a step over a line does where it succeeds. -/
structure Passed (symbols : SymbolTable) (g : Generation) (line : Line) (g' : Generation) :
    Prop where
  counter : ∀ c : Nat, g.counter = c → g'.counter = count c line.raw
  finish : g'.program.finish.isSome = (g.program.finish.isSome || isEnd line.raw)
  listing : ∃ e, g'.listing = g.listing ++ [e] ∧ Lists symbols g.counter line e

/-- What a step over a line leaves where it fails. The line may have been listed before. -/
structure Stopped (symbols : SymbolTable) (g : Generation) (line : Line) (b : Broken) : Prop where
  listing : b.listing = g.listing ∨
    ∃ e, b.listing = g.listing ++ [e] ∧ Lists symbols g.counter line e
  phase : b.fault.cause.category = .phase → b.listing = g.listing ∧ isEnd line.raw = false ∧
    OutOfPhase symbols g.counter line b.fault

/-- What a step over a line may come to. -/
def Sound (symbols : SymbolTable) (g : Generation) (line : Line) : Except Broken Generation → Prop
  | .ok g' => Passed symbols g line g'
  | .error b => Stopped symbols g line b

variable {symbols : SymbolTable} {g : Generation} {line : Line} {st : Statement}

theorem sound_stop {f : Fault} (hf : f.cause.category ≠ .phase) :
    Sound symbols g line (g.stop (.error f)) :=
  ⟨.inl rfl, fun h => absurd h hf⟩

/-- The check lets a statement pass exactly if its line binds no label elsewhere. -/
theorem checkPhase_cases (symbols : SymbolTable) (g : Generation)
    (hl : label? line.raw = st.label) :
    (g.checkPhase symbols line.location st = .ok () ∧
      ∀ label symbol, Binds symbols line label symbol → symbol.address = g.counter) ∨
    ∃ f, g.checkPhase symbols line.location st = .error f ∧
      OutOfPhase symbols g.counter line f := by
  unfold checkPhase
  cases hlabel : st.label with
  | none =>
    refine .inl ⟨rfl, fun label symbol hb => ?_⟩
    cases (hl.trans hlabel).symm.trans hb.named
  | some name =>
    rw [hlabel] at hl
    have hentry : ∀ label symbol, Binds symbols line label symbol →
        symbols.find? name = some symbol := by
      intro label symbol hb
      rw [Option.some.inj (hl.symm.trans hb.named)]
      exact hb.entry
    cases hfind : symbols.find? name with
    | none =>
      refine .inl ⟨by simp only [hfind], fun label symbol hb => ?_⟩
      cases hfind.symm.trans (hentry label symbol hb)
    | some found =>
      simp only [hfind]
      by_cases hout : found.location = some line.location ∧ found.address ≠ g.counter
      · rw [if_pos hout]
        exact .inr ⟨_, rfl, name, found, ⟨hl, hfind, hout.1⟩, hout.2, rfl⟩
      · rw [if_neg hout]
        refine .inl ⟨rfl, fun label symbol hb => ?_⟩
        have hsame : found = symbol := Option.some.inj (hfind.symm.trans (hentry label symbol hb))
        rw [hsame] at hout
        exact Classical.not_not.mp fun hne => hout ⟨hb.place, hne⟩

theorem emit_sound (options : Options) (kind : LineKind) (hl : label? line.raw = st.label)
    (hc : ∀ c, count c line.raw = c + st.bytes) (hend : isEnd line.raw = false)
    (ho : st.operation ≠ .directive .start) :
    Sound symbols g line (g.emit options symbols line.location kind st) := by
  unfold emit
  rcases checkPhase_cases symbols g hl with ⟨hok, hphase⟩ | ⟨f, hf, hout⟩
  · rw [hok]
    cases hencode : st.encode options line.location symbols with
    | error f => exact sound_stop (st.encode_inPhase options line.location symbols f hencode)
    | ok encoded =>
      have hlists : Lists symbols g.counter line
          { line := line.location.line, address := some g.counter, code := encoded.1,
            text := st.text } :=
        ⟨rfl, fun _ label symbol hb => ⟨rfl, hphase label symbol hb⟩⟩
      by_cases hs : st.Sizable
      · simp only [stop, ok_bind, Statement.next_sizable ho hs]
        refine ⟨fun c h => ?_, ?_, _, rfl, hlists⟩
        · show g.counter + (st.bytes : Int) = _
          rw [h, hc]
          rfl
        · rw [hend, Bool.or_false]
          dsimp only [list]
          split <;> rfl
      · -- The line is listed before its size is asked for.
        obtain ⟨f, hf, hcat⟩ := Statement.next_unsizable ho hs kind g.counter
        simp only [stop, ok_bind, list, hf]
        exact ⟨.inr ⟨_, rfl, hlists⟩, fun h => absurd h hcat⟩
  · rw [hf]
    exact ⟨.inl rfl, fun _ => ⟨rfl, hend, hout⟩⟩

theorem start_sound (final : Int) (hl : label? line.raw = none)
    (hc : ∀ c, count c line.raw = st.loadAddress) (hend : isEnd line.raw = false)
    (ho : st.operation = .directive .start) :
    Sound symbols g line (g.start final line.location.line st) := by
  cases hload : g.load with
  | some load =>
    rw [start_again (by rw [hload]; rfl)]
    exact sound_stop (by simp [Statement.fault, Cause.category])
  | none =>
    by_cases hs : st.Sizable
    · rw [start_first ho hs hload]
      refine ⟨fun c _ => by rw [hc]; rfl, by rw [hend, Bool.or_false]; rfl, _, rfl, rfl, ?_⟩
      intro _ label symbol hb
      cases hl.symm.trans hb.named
    · obtain ⟨f, hf, hcat⟩ := Statement.startAddress_unsizable ho hs
      unfold start
      rw [hload, hf]
      exact sound_stop hcat

theorem finish_sound (hc : ∀ c, count c line.raw = c) (hend : isEnd line.raw = true) :
    Sound symbols g line (g.finish line.location st) := by
  cases hload : g.load with
  | none =>
    rw [finish_unloaded hload]
    exact sound_stop (by simp [Statement.fault, Cause.category])
  | some load =>
    rw [finish_loaded (by rw [hload]; rfl)]
    refine ⟨fun c h => ?_, by rw [hend, Bool.or_true]; rfl, _, rfl, rfl, ?_⟩
    · rw [hc]
      exact h
    · intro h
      rw [hend] at h
      cases h

theorem take_sound (options : Options) (layout : Layout) (kind : LineKind)
    (hl : label? line.raw = st.defined)
    (hc : ∀ c, count c line.raw =
      if st.operation = .directive .start then st.loadAddress else c + st.bytes)
    (hend : isEnd line.raw = decide (st.operation = .directive .finish)) :
    Sound layout.symbols g line (g.take options layout line.location kind st) := by
  unfold take
  unfold Statement.defined at hl
  by_cases hstart : st.operation = .directive .start
  · simp only [if_pos hstart] at hl hc ⊢
    exact start_sound layout.final hl hc (by rw [hend, hstart]; rfl) hstart
  · simp only [if_neg hstart] at hl hc ⊢
    by_cases hfin : st.operation = .directive .finish
    · rw [if_pos hfin]
      have hbytes : st.bytes = 0 := Statement.bytes_of_size (by rw [hfin]; rfl)
      exact finish_sound (fun c => by rw [hc, hbytes, Nat.add_zero])
        (by rw [hend, decide_eq_true hfin])
    · rw [if_neg hfin]
      exact emit_sound options kind hl hc (by rw [hend, decide_eq_false hfin]) hstart

/-- Every step of the second pass is sound, whatever the table. -/
theorem step_sound (options : Options) (layout : Layout) (g : Generation) (line : Line) :
    Sound layout.symbols g line (g.step options layout line) := by
  by_cases hr : Readable line.raw
  · rw [step_readable hr]
    cases hst : statement? line.raw with
    | none =>
      have hend : isEnd line.raw = false := by rw [isEnd, holds, hst]; rfl
      have hlabel : label? line.raw = none := by rw [label?, hst]; rfl
      refine ⟨fun c h => ?_, by rw [hend, Bool.or_false]; rfl, _, rfl, rfl, ?_⟩
      · rw [count_remark hst]
        exact h
      · intro _ label symbol hb
        cases hlabel.symm.trans hb.named
    | some st =>
      have hlabel : label? line.raw = st.defined := by rw [label?, hst]; rfl
      have hend : isEnd line.raw = decide (st.operation = .directive .finish) :=
        holds_of_statement hst
      exact take_sound options layout _ hlabel (fun c => by rw [count, hst]; rfl) hend
  · obtain ⟨f, hf, hcat⟩ := read_unreadable hr (some line.location)
    unfold step
    simp only [hf]
    exact sound_stop (by rw [hcat]; simp)

end Generation

/-! ## Lines up to END -/

namespace Source

/-- Entries of the first of some lines, from the counter before them. -/
def ListedFrom (symbols : SymbolTable) : (counter : Nat) → List Line → List ListingEntry → Prop
  | _, _, [] => True
  | _, [], _ :: _ => False
  | c, line :: rest, e :: es =>
    Lists symbols c line e ∧ ListedFrom symbols (count c line.raw) rest es

theorem listedFrom_nil (symbols : SymbolTable) (c : Nat) (source : List Line) :
    ListedFrom symbols c source [] := by
  cases source <;> trivial

theorem ListedFrom.getElem? {symbols : SymbolTable} {c : Nat} {source : List Line}
    {es : List ListingEntry} (h : ListedFrom symbols c source es) {i : Nat} {e : ListingEntry}
    (he : es[i]? = some e) : ∃ line, source[i]? = some line ∧
      Lists symbols (countFrom c ((source.take i).map Line.raw)) line e := by
  induction es generalizing c source i with
  | nil => cases he
  | cons e₁ es ih =>
    cases source with
    | nil => exact absurd h id
    | cons line rest =>
      cases i with
      | zero =>
        cases he
        exact ⟨line, rfl, h.1⟩
      | succ i => exact ih h.2 he

end Source

namespace Generation

/-- What a run over lines may come to. What it lists is in phase. If it succeeds all lines before
    END are listed; a phase fault is that of the line behind those listed. -/
def RunSound (symbols : SymbolTable) (c : Nat) (source : List Line) (g : Generation) :
    Except Broken Generation → Prop
  | .ok g' => ∃ es, g'.listing = g.listing ++ es ∧ ListedFrom symbols c source es ∧
    (beforeEnd (source.map Line.raw)).length < es.length
  | .error b => ∃ es, b.listing = g.listing ++ es ∧ ListedFrom symbols c source es ∧
    (b.fault.cause.category = .phase → ∃ line, source[es.length]? = some line ∧
      (beforeEnd (source.map Line.raw))[es.length]? = some line.raw ∧
      OutOfPhase symbols (countFrom c ((source.take es.length).map Line.raw)) line b.fault)

variable {symbols : SymbolTable} {line : Line} {c : Nat} {g : Generation}

/-- A run that goes on behind a line is sound if the rest of it is. -/
theorem RunSound.cons {rest : List Line} {g₁ : Generation} {e : ListingEntry}
    {result : Except Broken Generation} (hend : isEnd line.raw = false)
    (he : g₁.listing = g.listing ++ [e]) (hlists : Lists symbols c line e)
    (h : RunSound symbols (count c line.raw) rest g₁ result) :
    RunSound symbols c (line :: rest) g result := by
  cases result with
  | ok g' =>
    obtain ⟨es, hes, hlisted, hlength⟩ := h
    refine ⟨e :: es, by rw [hes, he, List.append_assoc]; rfl, ⟨hlists, hlisted⟩, ?_⟩
    rw [List.map_cons, beforeEnd_cons hend]
    exact Nat.succ_lt_succ hlength
  | error b =>
    obtain ⟨es, hes, hlisted, hphase⟩ := h
    refine ⟨e :: es, by rw [hes, he, List.append_assoc]; rfl, ⟨hlists, hlisted⟩, ?_⟩
    rw [List.map_cons, beforeEnd_cons hend]
    exact hphase

/-- A run that ends in its first line is as sound as the step over this line. -/
theorem RunSound.stopped {rest : List Line} {b : Broken} (h : Stopped symbols g line b)
    (hc : g.counter = c) : RunSound symbols c (line :: rest) g (.error b) := by
  obtain ⟨hlisting, hphase⟩ := h
  rw [hc] at hlisting hphase
  rcases hlisting with hnone | ⟨e, he, hlists⟩
  · refine ⟨[], by rw [hnone, List.append_nil], listedFrom_nil _ _ _, fun hcat => ?_⟩
    obtain ⟨-, hend, hout⟩ := hphase hcat
    refine ⟨line, rfl, ?_, hout⟩
    rw [List.map_cons, beforeEnd_cons hend]
    rfl
  · refine ⟨[e], he, ⟨hlists, listedFrom_nil _ _ _⟩, fun hcat => ?_⟩
    have hsame := he.symm.trans (hphase hcat).1
    simp at hsame

/-- Every run of the second pass is sound, whatever the table. -/
theorem run_sound (options : Options) (layout : Layout) (file : Text) (source : List Line)
    (hc : g.counter = c) (hf : g.program.finish = none) :
    RunSound layout.symbols c source g (run options layout file g source) := by
  -- The counter of `g` is that of the first line that is still to be read.
  induction source generalizing g c with
  | nil => exact ⟨[], (List.append_nil _).symm, trivial, fun h => by cases h⟩
  | cons line rest ih =>
    rw [run]
    have hsound := step_sound options layout g line
    cases hstep : g.step options layout line with
    | error b =>
      rw [hstep] at hsound
      exact .stopped hsound hc
    | ok g₁ =>
      rw [hstep] at hsound
      obtain ⟨hcounter, hfinish, e, he, hlists⟩ := hsound
      rw [hf, Option.isSome_none, Bool.false_or] at hfinish
      rw [hc] at hlists
      rw [ok_bind, hfinish]
      cases hend : isEnd line.raw with
      | true =>
        refine ⟨[e], he, ⟨hlists, listedFrom_nil _ _ _⟩, ?_⟩
        rw [List.map_cons, beforeEnd_end hend]
        exact Nat.zero_lt_one
      | false =>
        rw [hend, Option.isSome_eq_false_iff, Option.isNone_iff_eq_none] at hfinish
        exact .cons hend he hlists (ih (hcounter c hc) hfinish)

end Generation

/-! ## A source -/

theorem Source.beforeEnd_getElem? {lines : List Text} {i : Nat} {raw : Text}
    (h : (beforeEnd lines)[i]? = some raw) : lines[i]? = some raw ∧ isEnd raw = false := by
  refine ⟨?_, isEnd_of_mem_beforeEnd (List.mem_of_getElem? h)⟩
  have hi := (List.getElem?_eq_some_iff.mp h).1
  rwa [← take_beforeEnd, List.getElem?_take_of_lt hi] at h

/-- Entries of the first lines of a source, where line `i` before END binds its label. -/
theorem Source.ListedFrom.inPhase {symbols : SymbolTable} {file : Text} {lines : List Text}
    {es : List ListingEntry} (h : ListedFrom symbols 0 (numberLines file lines) es) {i : Nat}
    {raw label : Text} {symbol : Symbol} {e : ListingEntry}
    (hraw : (beforeEnd lines)[i]? = some raw)
    (hb : Binds symbols { location := { file, line := (i : Int) + 1 }, raw } label symbol)
    (he : es[i]? = some e) :
    e.line = (i : Int) + 1 ∧ e.address = some symbol.address ∧
      symbol.address = addressAt lines i := by
  obtain ⟨hget, hend⟩ := beforeEnd_getElem? hraw
  obtain ⟨line, hline, hlists⟩ := h.getElem? he
  rw [numberLines_getElem?, hget] at hline
  cases hline
  rw [numberLines_take, numberLines_raw] at hlists
  obtain ⟨haddress, hsymbol⟩ := hlists.phase hend label symbol hb
  exact ⟨hlists.number, haddress.trans (congrArg some hsymbol.symm), hsymbol⟩

/-- The phase check is effective on any layout. Where the second pass succeeds, a label before END
    that the table has with the place of its own line has there the address at which that line is
    listed, which is what the lines before it count up to; so have such labels among the lines
    listed before a failure. A phase fault is that of the line behind those listed: the table has
    its label with that place and another address, and both addresses are reported. -/
theorem phase_check_effective (options : Options) (layout : Layout) (file : Text)
    (lines : List Text) :
    (∀ g, generate options layout file (numberLines file lines) = .ok g →
      ∀ (i : Nat) raw label symbol, (beforeEnd lines)[i]? = some raw →
        Binds layout.symbols { location := { file, line := (i : Int) + 1 }, raw } label symbol →
        ∃ e, g.listing[i]? = some e ∧ e.line = (i : Int) + 1 ∧
          e.address = some symbol.address ∧ symbol.address = addressAt lines i) ∧
    ∀ b, generate options layout file (numberLines file lines) = .error b →
      (∀ (i : Nat) raw label symbol e, (beforeEnd lines)[i]? = some raw →
        Binds layout.symbols { location := { file, line := (i : Int) + 1 }, raw } label symbol →
        b.listing[i]? = some e → e.line = (i : Int) + 1 ∧
          e.address = some symbol.address ∧ symbol.address = addressAt lines i) ∧
      (b.fault.cause.category = .phase → ∃ i : Nat, ∃ raw label symbol,
        b.listing.length = i ∧ (beforeEnd lines)[i]? = some raw ∧
        Binds layout.symbols { location := { file, line := (i : Int) + 1 }, raw } label symbol ∧
        symbol.address ≠ addressAt lines i ∧
        b.fault = { cause := .phase label symbol.address (addressAt lines i)
                    location := some { file, line := (i : Int) + 1 } }) := by
  have hrun := Generation.run_sound options layout file (numberLines file lines)
    (g := {}) (c := 0) rfl rfl
  refine ⟨fun g hg i raw label symbol hraw hb => ?_, fun b hg => ?_⟩
  · rw [generate] at hg
    rw [hg] at hrun
    obtain ⟨es, hes, hlisted, hlength⟩ := hrun
    rw [numberLines_raw] at hlength
    have hi : i < es.length := Nat.lt_trans (List.getElem?_eq_some_iff.mp hraw).1 hlength
    have he : es[i]? = some es[i] := List.getElem?_eq_getElem hi
    rw [hes]
    exact ⟨es[i], he, hlisted.inPhase hraw hb he⟩
  · rw [generate] at hg
    rw [hg] at hrun
    obtain ⟨es, hes, hlisted, hphase⟩ := hrun
    rw [hes]
    refine ⟨fun i raw label symbol e hraw hb he => hlisted.inPhase hraw hb he, fun hcat => ?_⟩
    obtain ⟨⟨location, raw⟩, hline, hraw, label, symbol, hb, hne, hfault⟩ := hphase hcat
    rw [numberLines_raw] at hraw
    rw [numberLines_getElem?, (beforeEnd_getElem? hraw).1] at hline
    rw [numberLines_take, numberLines_raw] at hne hfault
    cases hline
    exact ⟨es.length, raw, label, symbol, rfl, hraw, hb, hne, hfault⟩

/-- A source with a label in two places. -/
def Source.relabelled : List Text := [
  "LOOP  START 1000",
  "LOOP  LDA   LEN",
  "LEN   WORD  5",
  "LOOP  RSUB",
  "      END",
  "LEN   WORD  6"]

/-- A layout for it that no first pass gives. LEN has an address of its own choice but the place of
    no line, and LOOP is bound at `place`. -/
def Source.relabelling (place : Int) : Layout where
  symbols.symbols := [
    { name := "LEN", address := -3 },
    { name := "LOOP", address := 0x1006, location := some { file := "loop.asm", line := place } }]
  load := 7

/-- At its second place LOOP is in phase, at its first it is not. -/
theorem phase_check_effective_relabelled :
    (∃ g e, generate {} (relabelling 4) "loop.asm" (numberLines "loop.asm" relabelled) = .ok g ∧
      g.listing[3]? = some e ∧ e.line = 4 ∧ e.address = some 0x1006) ∧
    ∃ b, generate {} (relabelling 2) "loop.asm" (numberLines "loop.asm" relabelled) = .error b ∧
      b.listing.length = 1 ∧
      b.fault = { cause := .phase "LOOP" 0x1006 0x1000
                  location := some { file := "loop.asm", line := 2 } } := by
  obtain ⟨hok, -⟩ := phase_check_effective {} (relabelling 4) "loop.asm" relabelled
  obtain ⟨-, herror⟩ := phase_check_effective {} (relabelling 2) "loop.asm" relabelled
  have haddress : addressAt relabelled 1 = 0x1000 := by decide +kernel
  constructor
  · obtain ⟨g, hg⟩ : ∃ g, generate {} (relabelling 4) "loop.asm"
        (numberLines "loop.asm" relabelled) = .ok g := ⟨_, rfl⟩
    obtain ⟨e, he, hline, hshown, -⟩ := hok g hg 3 "LOOP  RSUB" "LOOP" _ (by decide +kernel)
      ⟨by decide +kernel, rfl, rfl⟩
    exact ⟨g, e, hg, he, hline, hshown⟩
  · obtain ⟨b, hb, hphase, hlength⟩ : ∃ b, generate {} (relabelling 2) "loop.asm"
        (numberLines "loop.asm" relabelled) = .error b ∧ b.fault.cause.category = .phase ∧
        b.listing.length = 1 := ⟨_, rfl, rfl, rfl⟩
    obtain ⟨i, raw, label, symbol, hi, hraw, hbinds, -, hfault⟩ := (herror b hb).2 hphase
    cases hlength.symm.trans hi
    have hline : (beforeEnd relabelled)[1]? = some "LOOP  LDA   LEN".toList := by decide +kernel
    have hlabel : label = "LOOP" := by
      have hnamed : label? "LOOP  LDA   LEN" = some "LOOP".toList := by decide +kernel
      rw [← Option.some.inj (hraw.symm.trans hline)] at hnamed
      exact Option.some.inj (hbinds.named.symm.trans hnamed)
    have hsymbol : symbol.address = 0x1006 := by
      have hentry := hbinds.entry
      rw [hlabel] at hentry
      cases hentry
      rfl
    rw [hlabel, hsymbol, haddress] at hfault
    exact ⟨b, hb, hlength, hfault⟩

end TwoPass
