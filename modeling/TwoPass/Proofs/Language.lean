import TwoPass.Proofs.SecondPass

/-
  The language that is accepted, as conditions on the lines of a source alone. Some of them cover
  all lines, END or not; others only the lines before the first END. `assemble_succeeds_iff` says
  that where nothing is rejected for its names, a source is assembled exactly if it is `Accepted`.
-/

namespace TwoPass

open Source

namespace Source

/-- The lines before the first END. -/
def beforeEnd (lines : List Text) : List Text := lines.takeWhile fun raw => !isEnd raw

theorem beforeEnd_append {before : List Text} (h : ∀ raw ∈ before, isEnd raw = false)
    (after : List Text) : beforeEnd (before ++ after) = before ++ beforeEnd after := by
  apply List.takeWhile_append_of_pos
  intro raw hr
  rw [h raw hr]
  rfl

theorem beforeEnd_end {raw : Text} (h : isEnd raw = true) (rest : List Text) :
    beforeEnd (raw :: rest) = [] := by
  apply List.takeWhile_cons_of_neg
  rw [h]
  decide

theorem beforeEnd_cons {raw : Text} (h : isEnd raw = false) (rest : List Text) :
    beforeEnd (raw :: rest) = raw :: beforeEnd rest :=
  List.takeWhile_cons_of_pos (by rw [h]; rfl)

theorem isEnd_of_mem_beforeEnd {raw : Text} {lines : List Text} (h : raw ∈ beforeEnd lines) :
    isEnd raw = false := by
  have hend := List.all_eq_true.mp List.all_takeWhile raw h
  rwa [Bool.not_eq_true'] at hend

theorem take_beforeEnd (lines : List Text) :
    lines.take (beforeEnd lines).length = beforeEnd lines :=
  (List.prefix_iff_eq_take.mp (List.takeWhile_prefix _)).symm

/-- What the second pass reads: the lines before the first END, and END. -/
theorem upToEnd_eq_take (source : List Line) :
    upToEnd source = source.take ((beforeEnd (source.map Line.raw)).length + 1) := by
  induction source with
  | nil => rfl
  | cons line rest ih =>
    rw [upToEnd, List.map_cons]
    cases hend : isEnd line.raw with
    | true =>
      rw [if_pos rfl, beforeEnd_end hend]
      rfl
    | false =>
      rw [if_neg Bool.false_ne_true, beforeEnd_cons hend, ih]
      rfl

/-- The sources that can be assembled below a limit. -/
structure Accepted (limit : Int) (lines : List Text) : Prop where
  /-- No label stands alone. -/
  labels : ∀ raw ∈ lines, Readable raw
  /-- The operands that addresses depend on are well-formed. -/
  operands : ∀ raw ∈ lines, ∀ st, statement? raw = some st → st.Sizable
  /-- Every line is reached below the limit, remarks and lines behind END too. -/
  bounds : ∀ i, i < lines.length → (addressAt lines i : Int) < limit
  finish : ∃ raw ∈ lines, isEnd raw = true
  start : (beforeEnd lines).countP isStart = 1
  codes : ∀ raw ∈ beforeEnd lines, ∀ st, statement? raw = some st → st.Encodable

theorem encodable_of_isEnd {raw : Text} (h : isEnd raw = true) {st : Statement}
    (hst : statement? raw = some st) : st.Encodable := by
  rw [isEnd, holds_of_statement hst, decide_eq_true_eq] at h
  rw [Statement.Encodable, h]
  trivial

/-- Lines are assembled if END follows exactly one START and every line before END has a code. -/
theorem assembled_iff {started : Bool} {lines : List Text} : Assembled started lines ↔
    (∃ raw ∈ lines, isEnd raw = true) ∧
    (beforeEnd lines).countP isStart = (if started then 0 else 1) ∧
    ∀ raw ∈ beforeEnd lines, ∀ st, statement? raw = some st → st.Encodable := by
  induction lines generalizing started with
  | nil => simp [Assembled]
  | cons raw rest ih =>
    rw [Assembled, allowed_iff]
    cases hend : isEnd raw with
    | true =>
      have hstart : isStart raw ≠ true := by
        rw [isStart_of_isEnd hend]
        exact Bool.false_ne_true
      rw [beforeEnd_end hend, List.countP_nil]
      constructor
      · rintro ⟨⟨-, hs, -⟩, -⟩
        rw [hs rfl]
        exact ⟨⟨raw, List.mem_cons_self, hend⟩, rfl, fun _ h => absurd h List.not_mem_nil⟩
      · rintro ⟨-, hcount, -⟩
        have hs : started = true := by cases started <;> simp at hcount ⊢
        exact ⟨⟨fun h => absurd h hstart, fun _ => hs, fun _ => encodable_of_isEnd hend⟩,
          fun h => absurd h.symm Bool.false_ne_true⟩
    | false =>
      have hex : (∃ r ∈ raw :: rest, isEnd r = true) ↔ ∃ r ∈ rest, isEnd r = true := by simp [hend]
      rw [beforeEnd_cons hend, List.countP_cons, List.forall_mem_cons, hex]
      constructor
      · rintro ⟨⟨hs, -, hc⟩, hrest⟩
        obtain ⟨he, hcount, hcodes⟩ := ih.mp (hrest rfl)
        refine ⟨he, ?_, hc, hcodes⟩
        rw [hcount]
        revert hs
        cases isStart raw <;> cases started <;> simp
      · rintro ⟨he, hcount, hc, hcodes⟩
        have hs : isStart raw = true → started = false := by
          intro h
          rw [h, if_pos rfl] at hcount
          cases started <;> simp at hcount ⊢
        refine ⟨⟨hs, fun h => absurd h Bool.false_ne_true, hc⟩,
          fun _ => ih.mpr ⟨he, ?_, hcodes⟩⟩
        revert hcount hs
        cases isStart raw <;> cases started <;> simp

theorem accepted_iff {limit : Int} {lines : List Text} :
    Accepted limit lines ↔ Fits limit 0 lines ∧ Assembled false lines := by
  rw [fits_iff, assembled_iff]
  constructor
  · intro h
    exact ⟨⟨fun raw hr => ⟨h.labels raw hr, h.operands raw hr⟩, h.bounds⟩, h.finish, h.start,
      h.codes⟩
  · rintro ⟨⟨hlay, hbounds⟩, hfinish, hstart, hcodes⟩
    exact ⟨fun raw hr => (hlay raw hr).readable, fun raw hr => (hlay raw hr).sizable, hbounds,
      hfinish, hstart, hcodes⟩

end Source

/-- Where undefined names and duplicates are let pass, what is assembled is exactly the language. -/
theorem assemble_succeeds_iff (limit : Int) (verbose : Bool) (file : Text) (lines : List Text) :
    (∃ done, (assemble
      { rejectUndefined := false, rejectDuplicates := false, maxAddress := limit, verbose }
      file lines).result = .ok done) ↔ Accepted limit lines := by
  rw [accepted_iff]
  constructor
  · rintro ⟨done, h⟩
    obtain ⟨⟨s, hs⟩, hassembled, -⟩ := assemble_ok h
    have hfits := layOut_fits hs
    rw [numberLines_raw] at hfits
    exact ⟨hfits, hassembled⟩
  · rintro ⟨hfits, hassembled⟩
    exact assemble_lenient rfl rfl hfits hassembled

end TwoPass
