import TwoPass.Proofs.SecondPass

/-
  Strict and lenient assembly compared. Wherever a strict pass rejects a name, a lenient one gives
  a warning and goes on; all else is the same in both. `Tightens` says this of two computations, a
  strict one and a lenient one: the notices of the lenient one only grow, and the strict one
  succeeds exactly where the lenient one does without a warning, with the same result. It holds of
  the two places where names are rejected and is kept by sequencing, so it holds of a step of each
  pass, of a whole pass, and of an assembly (`strict_iff_quiet`).
-/

namespace TwoPass

/-- Notices without a warning. -/
def Quiet (notices : List Notice) : Prop := ∀ n ∈ notices, n.isWarning = false

instance : DecidablePred Quiet := fun notices =>
  inferInstanceAs (Decidable (∀ n ∈ notices, n.isWarning = false))

theorem quiet_append {before after : List Notice} :
    Quiet (before ++ after) ↔ Quiet before ∧ Quiet after := List.forall_mem_append

/-! ## Tightening -/

/-- `strict` succeeds exactly where `lenient` does without a warning, and then with the same result.
    Here `before` are the notices given so far, and `after` those given once there is a result. -/
structure Tightens {ε α : Type} (before : List Notice) (after : α → List Notice)
    (strict lenient : Except ε α) : Prop where
  grows : ∀ a, lenient = .ok a → before <+: after a
  filters : Quiet before → ∀ a, strict = .ok a ↔ lenient = .ok a ∧ Quiet (after a)

namespace Tightens

variable {ε α β : Type} {before : List Notice}

/-- What does not depend on strictness tightens itself, if all it adds is quiet. -/
theorem same {after : α → List Notice} {x : Except ε α}
    (h : ∀ a, x = .ok a → ∃ more, after a = before ++ more ∧ Quiet more) :
    Tightens before after x x := by
  constructor
  · intro a ha
    obtain ⟨more, hmore, -⟩ := h a ha
    exact ⟨more, hmore.symm⟩
  · intro hquiet a
    refine ⟨fun ha => ⟨ha, ?_⟩, fun ha => ha.1⟩
    obtain ⟨more, hmore, hq⟩ := h a ha
    rw [hmore]
    exact quiet_append.mpr ⟨hquiet, hq⟩

theorem ok {after : α → List Notice} {a : α} (h : after a = before) :
    Tightens before after (Except.ok a : Except ε α) (.ok a) := by
  refine same fun b hb => ⟨[], ?_, nofun⟩
  cases hb
  rw [h, List.append_nil]

/-- A computation that gives no notices. -/
theorem silent (x : Except ε α) : Tightens before (fun _ => before) x x :=
  same fun _ _ => ⟨[], (List.append_nil before).symm, nofun⟩

/-- Where a strict computation fails, a lenient one gives a warning. -/
theorem reject {after : α → List Notice} {e : ε} {a : α} {n : Notice}
    (h : after a = before ++ [n]) (hn : n.isWarning = true) :
    Tightens before after (.error e) (.ok a) := by
  constructor
  · intro b hb
    cases hb
    exact ⟨[n], h.symm⟩
  · intro _ b
    refine iff_of_false nofun ?_
    rintro ⟨hb, hquiet⟩
    cases hb
    have hfalse := hquiet n (by rw [h]; exact List.mem_append_right _ List.mem_cons_self)
    rw [hn] at hfalse
    cases hfalse

theorem bind {mid : α → List Notice} {after : β → List Notice} {x y : Except ε α}
    {f g : α → Except ε β} (hx : Tightens before mid x y)
    (hf : ∀ a, Tightens (mid a) after (f a) (g a)) :
    Tightens before after (x >>= f) (y >>= g) := by
  constructor
  · intro b hb
    obtain ⟨a, ha, hb⟩ := bind_eq_ok hb
    exact (hx.grows a ha).trans ((hf a).grows b hb)
  · intro hquiet b
    constructor
    · intro hb
      obtain ⟨a, ha, hb⟩ := bind_eq_ok hb
      obtain ⟨hy, hmid⟩ := (hx.filters hquiet a).mp ha
      rw [hy]
      exact ((hf a).filters hmid b).mp hb
    · rintro ⟨hb, hafter⟩
      obtain ⟨a, ha, hb⟩ := bind_eq_ok hb
      -- Notices only grow, so those in between are quiet if the last ones are.
      have hmid : Quiet (mid a) := fun n hn => hafter n (((hf a).grows b hb).subset hn)
      rw [(hx.filters hquiet a).mpr ⟨ha, hmid⟩]
      exact ((hf a).filters hmid b).mpr ⟨hb, hafter⟩

theorem ite {c : Prop} [Decidable c] {after : α → List Notice} {x y x' y' : Except ε α}
    (h : Tightens before after x y) (h' : Tightens before after x' y') :
    Tightens before after (if c then x else x') (if c then y else y') := by
  split_ifs
  · exact h
  · exact h'

/-- Notices that were given earlier make no difference. -/
theorem frame {after : α → List Notice} {x y : Except ε α} (h : Tightens before after x y)
    (earlier : List Notice) :
    Tightens (earlier ++ before) (fun a => earlier ++ after a) x y := by
  constructor
  · intro a ha
    exact (List.prefix_append_right_inj earlier).mpr (h.grows a ha)
  · intro hquiet a
    obtain ⟨hearlier, hbefore⟩ := quiet_append.mp hquiet
    rw [h.filters hbefore a, quiet_append, and_iff_right hearlier]

/-- It does not matter how a failure is reported. -/
theorem errors {ε' : Type} {after : α → List Notice} {x y : Except ε α}
    {report : Except ε α → Except ε' α} (hreport : ∀ {x a}, report x = .ok a ↔ x = .ok a)
    (h : Tightens before after x y) : Tightens before after (report x) (report y) := by
  constructor
  · intro a ha
    exact h.grows a (hreport.mp ha)
  · intro hquiet a
    rw [hreport, hreport]
    exact h.filters hquiet a

end Tightens

variable (options : Options)

/-! ## The first pass -/

namespace Scan

theorem stop_eq_ok_iff {α : Type} {s : Scan} {x : Except Fault α} {a : α} :
    s.stop x = .ok a ↔ x = .ok a := by
  cases x <;> simp [stop]

/-- A label that the table has is rejected or gives a warning. -/
theorem tightens_enterLabel (s : Scan) (location : Location) (st : Statement) :
    Tightens s.notices notices (s.enterLabel (options.setStrict true) location st)
      (s.enterLabel (options.setStrict false) location st) := by
  unfold enterLabel
  split
  · exact .ok rfl
  · unfold define
    split
    · exact .ok rfl
    · exact .reject rfl rfl

theorem tightens_statement (s : Scan) (location : Location) (kind : LineKind) (st : Statement) :
    Tightens s.notices notices (s.statement (options.setStrict true) location kind st)
      (s.statement (options.setStrict false) location kind st) := by
  by_cases ho : st.operation = .directive .start
  · rw [statement_start ho, statement_start ho]
    exact .bind (.silent _) fun address => .ok rfl
  · rw [statement_plain ho, statement_plain ho]
    refine .bind (.errors stop_eq_ok_iff (s.tightens_enterLabel options location st)) fun s₁ => ?_
    exact .bind (.silent _) fun next => .ok rfl

theorem tightens_step (s : Scan) (line : Line) :
    Tightens s.notices notices (s.step (options.setStrict true) line)
      (s.step (options.setStrict false) line) := by
  unfold step
  refine .ite (.same nofun) (.bind (.silent _) fun read => ?_)
  cases read with
  | none => exact .ok rfl
  | some st => exact s.tightens_statement options _ _ st

theorem tightens_run (s : Scan) (source : List Line) :
    Tightens s.notices notices (source.foldlM (step (options.setStrict true)) s)
      (source.foldlM (step (options.setStrict false)) s) := by
  induction source generalizing s with
  | nil => exact .ok rfl
  | cons line rest ih =>
    rw [List.foldlM_cons, List.foldlM_cons]
    exact .bind (s.tightens_step options line) ih

end Scan

/-! ## The second pass -/

/-- An operand that the table does not have is rejected or gives a warning. -/
theorem Statement.tightens_target (st : Statement) (location : Location) (symbols : SymbolTable)
    (m : Mnemonic) :
    Tightens [] Prod.snd (st.target (options.setStrict true) location symbols m)
      (st.target (options.setStrict false) location symbols m) := by
  unfold target
  refine .ite ?_ (.ok rfl)
  cases st.operand with
  | none => exact .same nofun
  | some operand =>
    dsimp only
    cases symbols.find? operand with
    | none => exact .reject rfl rfl
    | some symbol => exact .ok rfl

theorem Statement.tightens_encode (st : Statement) (location : Location) (symbols : SymbolTable) :
    Tightens [] Prod.snd (st.encode (options.setStrict true) location symbols)
      (st.encode (options.setStrict false) location symbols) := by
  unfold encode
  cases st.operation with
  | instruction m => exact .bind (st.tightens_target options location symbols m) fun _ => .ok rfl
  | unknown name => exact .same nofun
  | directive d =>
    cases d with
    | word | byte => exact .bind (.silent _) fun _ => .bind (.silent _) fun _ => .ok rfl
    | _ => exact .ok rfl

namespace Generation

theorem stop_eq_ok_iff {α : Type} {g : Generation} {x : Except Fault α} {a : α} :
    g.stop x = .ok a ↔ x = .ok a := by
  cases x <;> simp [stop]

theorem start_notices {g g' : Generation} {final line : Int} {st : Statement}
    (h : g.start final line st = .ok g') : g'.notices = g.notices := by
  unfold start at h
  split_ifs at h
  · cases h
  · obtain ⟨address, -, h⟩ := bind_eq_ok h
    cases h
    rfl

theorem finish_notices {g g' : Generation} {location : Location} {st : Statement}
    (h : g.finish location st = .ok g') : g'.notices = g.notices ++ [.endReached location] := by
  unfold finish at h
  split at h
  · cases h
  · cases h
    rfl

theorem tightens_emit (g : Generation) (symbols : SymbolTable) (location : Location)
    (kind : LineKind) (st : Statement) :
    Tightens g.notices notices (g.emit (options.setStrict true) symbols location kind st)
      (g.emit (options.setStrict false) symbols location kind st) := by
  unfold emit
  refine .bind (.silent _) fun _ => ?_
  have hencode := (st.tightens_encode options location symbols).frame g.notices
  rw [List.append_nil] at hencode
  refine .bind (.errors stop_eq_ok_iff hencode) fun encoded => ?_
  exact .bind (.silent _) fun next => .ok rfl

theorem tightens_step (layout : Layout) (g : Generation) (line : Line) :
    Tightens g.notices notices (g.step (options.setStrict true) layout line)
      (g.step (options.setStrict false) layout line) := by
  unfold step
  refine .bind (.silent _) fun read => ?_
  cases read with
  | none => exact .ok rfl
  | some st =>
    dsimp only
    split
    · exact .same fun g₁ h => ⟨[], by rw [start_notices h, List.append_nil], nofun⟩
    · refine .same fun g₁ h => ⟨_, finish_notices h, ?_⟩
      simp [Quiet, Notice.isWarning, Notice.level]
    · exact g.tightens_emit options _ _ _ st

theorem tightens_run (layout : Layout) (file : Text) (g : Generation) (source : List Line) :
    Tightens g.notices notices (run (options.setStrict true) layout file g source)
      (run (options.setStrict false) layout file g source) := by
  induction source generalizing g with
  | nil => exact .same nofun
  | cons line rest ih =>
    unfold run
    exact .bind (g.tightens_step options layout line) fun g₁ => .ite (.ok rfl) (ih g₁)

end Generation

/-! ## Both passes -/

variable {options} {file : Text} {lines : List Text} {s : Scan} {g : Generation}

theorem Outcome.quiet_ofPasses :
    Quiet (ofPasses s g).notices ↔ Quiet s.notices ∧ Quiet g.notices := by
  simp [ofPasses, Quiet, or_imp, forall_and, Notice.isWarning, Notice.level]

/-- Both passes succeed strictly where they do leniently and without a warning. -/
theorem passes_strict_iff : Passes (options.setStrict true) file lines s g ↔
    Passes (options.setStrict false) file lines s g ∧ Quiet s.notices ∧ Quiet g.notices := by
  have hfirst := (Scan.tightens_run options {} (numberLines file lines)).filters nofun s
  have hsecond :=
    (Generation.tightens_run options s.layout file {} (numberLines file lines)).filters nofun g
  constructor
  · rintro ⟨hs, hg⟩
    obtain ⟨hs, hquiet⟩ := hfirst.mp hs
    obtain ⟨hg, hquiet'⟩ := hsecond.mp hg
    exact ⟨⟨hs, hg⟩, hquiet, hquiet'⟩
  · rintro ⟨⟨hs, hg⟩, hquiet, hquiet'⟩
    exact ⟨hfirst.mpr ⟨hs, hquiet⟩, hsecond.mpr ⟨hg, hquiet'⟩⟩

/-- Strictness only filters: a source is assembled strictly exactly if it is assembled leniently
    without a warning, and then with the same outcome. -/
theorem strict_iff_quiet (options : Options) (file : Text) (lines : List Text) :
    ((∃ done, (assemble (options.setStrict true) file lines).result = .ok done) ↔
      (∃ done, (assemble (options.setStrict false) file lines).result = .ok done) ∧
        Quiet (assemble (options.setStrict false) file lines).notices) ∧
    ∀ done, (assemble (options.setStrict true) file lines).result = .ok done →
      assemble (options.setStrict true) file lines =
        assemble (options.setStrict false) file lines := by
  refine ⟨⟨?_, ?_⟩, ?_⟩
  · rintro ⟨done, h⟩
    obtain ⟨s, g, hstrict, -⟩ := exists_passes h
    obtain ⟨hlenient, hquiet⟩ := passes_strict_iff.mp hstrict
    rw [hlenient.assemble_eq]
    exact ⟨⟨_, rfl⟩, Outcome.quiet_ofPasses.mpr hquiet⟩
  · rintro ⟨⟨done, h⟩, hquiet⟩
    obtain ⟨s, g, hlenient, -⟩ := exists_passes h
    rw [hlenient.assemble_eq, Outcome.quiet_ofPasses] at hquiet
    rw [(passes_strict_iff.mpr ⟨hlenient, hquiet⟩).assemble_eq]
    exact ⟨_, rfl⟩
  · intro done h
    obtain ⟨s, g, hstrict, -⟩ := exists_passes h
    rw [hstrict.assemble_eq, (passes_strict_iff.mp hstrict).1.assemble_eq]

/-- A source whose labels are used before they are defined. -/
def Source.forward : List Text := [
  "COPY  START 1000",
  "      LDA   LEN",
  "      J     DONE",
  "LEN   WORD  5",
  "DONE  RSUB",
  "      END"]

/-- The same source with a label that is defined again behind END. -/
def Source.repeated : List Text := Source.forward ++ ["LEN   WORD  6".toList]

theorem strict_iff_quiet_forward :
    (∃ done, (assemble (.setStrict {} true) "copy.asm" Source.forward).result = .ok done ∧
      assemble (.setStrict {} true) "copy.asm" Source.forward =
        assemble (.setStrict {} false) "copy.asm" Source.forward) ∧
    ¬ Quiet (assemble (.setStrict {} false) "copy.asm" Source.repeated).notices ∧
    ¬ ∃ done, (assemble (.setStrict {} true) "copy.asm" Source.repeated).result = .ok done := by
  have hwarns : ¬ Quiet (assemble (.setStrict {} false) "copy.asm" Source.repeated).notices := by
    decide +kernel
  refine ⟨⟨_, rfl, (strict_iff_quiet {} "copy.asm" Source.forward).2 _ rfl⟩, hwarns, ?_⟩
  intro hstrict
  exact hwarns ((strict_iff_quiet {} "copy.asm" Source.repeated).1.mp hstrict).2

end TwoPass
