import Mathlib.Tactic.SplitIfs
import TwoPass.Files.Store

/-
  Paths and files. A path that is written is written the same again (`Path.normalize_normalize`):
  its parts hold no slash, so splitting what was joined gives them back. A write changes what is at
  one place and no directory, so every path leads where it led before; what was written is read
  back (`Store.read_written`), and every path that leads to another place reads what it read
  (`Store.read_write_other`).
-/

namespace TwoPass

/-! ## Paths -/

namespace Path

theorem split_ne_nil (separator : Char) (t : Text) : split separator t ≠ [] := by
  cases t with
  | nil => exact List.cons_ne_nil _ _
  | cons c cs =>
    unfold split Text.consLine
    split
    · exact List.cons_ne_nil _ _
    · split <;> exact List.cons_ne_nil _ _

/-- The parts of a text do not hold what parts them. -/
theorem not_mem_of_mem_split {separator : Char} {t p : Text} (h : p ∈ split separator t) :
    separator ∉ p := by
  induction t generalizing p with
  | nil =>
    rw [split, List.mem_singleton] at h
    rw [h]
    exact List.not_mem_nil
  | cons c cs ih =>
    rw [split] at h
    by_cases hc : c = separator
    · rw [if_pos hc, List.mem_cons] at h
      rcases h with rfl | h
      · exact List.not_mem_nil
      · exact ih h
    · rw [if_neg hc] at h
      obtain ⟨q, qs, hq⟩ := List.exists_cons_of_ne_nil (split_ne_nil separator cs)
      rw [hq] at h ih
      rw [Text.consLine, List.mem_cons] at h
      rcases h with rfl | h
      · rw [List.mem_cons, not_or]
        exact ⟨fun he => hc he.symm, ih List.mem_cons_self⟩
      · exact ih (List.mem_cons_of_mem q h)

theorem split_of_not_mem {separator : Char} {p : Text} (h : separator ∉ p) :
    split separator p = [p] := by
  induction p with
  | nil => rfl
  | cons c cs ih =>
    rw [List.mem_cons, not_or] at h
    rw [split, if_neg fun hc => h.1 hc.symm, ih h.2]
    rfl

theorem split_append {separator : Char} {p : Text} (h : separator ∉ p) (t : Text) :
    split separator (p ++ separator :: t) = p :: split separator t := by
  induction p with
  | nil => rw [List.nil_append, split, if_pos rfl]
  | cons c cs ih =>
    rw [List.mem_cons, not_or] at h
    rw [List.cons_append, split, if_neg fun hc => h.1 hc.symm, ih h.2]
    rfl

/-- Parts that are joined are the parts of the whole. -/
theorem split_join {separator : Char} {ps : List Text} (hne : ps ≠ [])
    (h : ∀ p ∈ ps, separator ∉ p) : split separator (Text.join [separator] ps) = ps := by
  induction ps with
  | nil => exact absurd rfl hne
  | cons p rest ih =>
    rw [List.forall_mem_cons] at h
    cases rest with
    | nil => exact split_of_not_mem h.1
    | cons q qs =>
      show split separator (p ++ [separator] ++ Text.join [separator] (q :: qs)) = _
      rw [List.append_assoc, List.singleton_append, split_append h.1,
        ih (List.cons_ne_nil q qs) h.2]

/-- The parts of a path that are written. -/
def parts (t : Text) : List Text := (split '/' t).filter fun p => p ≠ [] ∧ p ≠ ['.']

/-- A part that is written: it is not empty, not the directory itself, and has no slash. -/
structure IsPart (p : Text) : Prop where
  ne_nil : p ≠ []
  ne_dot : p ≠ ['.']
  no_slash : '/' ∉ p

theorem isPart_of_mem_parts {t p : Text} (h : p ∈ parts t) : IsPart p := by
  obtain ⟨hsplit, hkept⟩ := List.mem_filter.mp h
  have hkept := of_decide_eq_true hkept
  exact ⟨hkept.1, hkept.2, not_mem_of_mem_split hsplit⟩

theorem parts_join {ps : List Text} (h : ∀ p ∈ ps, IsPart p) : parts (Text.join ['/'] ps) = ps := by
  by_cases hne : ps = []
  · rw [hne]
    rfl
  · unfold parts
    rw [split_join hne fun p hp => (h p hp).no_slash]
    exact List.filter_eq_self.mpr fun p hp => decide_eq_true ⟨(h p hp).ne_nil, (h p hp).ne_dot⟩

/-- Slashes in front add no parts. -/
theorem parts_slash (t : Text) : parts ('/' :: t) = parts t := by
  unfold parts
  rw [split, if_pos rfl]
  rfl

/-- What parts are joined to does not start with a slash. -/
theorem head?_join {ps : List Text} (h : ∀ p ∈ ps, IsPart p) :
    (Text.join ['/'] ps).head? ≠ some '/' := by
  cases ps with
  | nil => exact nofun
  | cons p rest =>
    have hp := h p List.mem_cons_self
    obtain ⟨c, cs, rfl⟩ := List.exists_cons_of_ne_nil hp.ne_nil
    have hc : c ≠ '/' := fun hc => hp.no_slash (by rw [hc]; exact List.mem_cons_self)
    have hhead : (Text.join ['/'] ((c :: cs) :: rest)).head? = some c := by cases rest <;> rfl
    rw [hhead, ne_eq, Option.some.injEq]
    exact hc

theorem normalize_eq (t : Text) :
    normalize t = match root t ++ Text.join ['/'] (parts t) with
      | [] => ['.']
      | path => path := rfl

/-- A path that is not empty is written as its slashes in front and its parts. -/
theorem normalize_of_ne_nil {t path : Text} (h : root t ++ Text.join ['/'] (parts t) = path)
    (hne : path ≠ []) : normalize t = path := by
  rw [normalize_eq, h]
  split
  · exact absurd rfl hne
  · rfl

theorem root_of_head? {t : Text} (h : t.head? ≠ some '/') : root t = [] := by
  unfold root
  split
  · exact absurd rfl h
  · exact absurd rfl h
  · exact absurd rfl h
  · rfl

/-- The slashes in front are none, one or two, and stay so in front of parts. -/
theorem root_root_append {body : Text} (h : body.head? ≠ some '/') (t : Text) :
    root (root t ++ body) = root t ∧ parts (root t ++ body) = parts body := by
  have hbody : ∀ rest, body ≠ '/' :: rest := fun rest hr => h (by rw [hr]; rfl)
  have hone : root ('/' :: body) = ['/'] := by simp [root, hbody]
  have htwo : root ('/' :: '/' :: body) = ['/', '/'] := by simp [root]
  have hcases : root t = [] ∨ root t = ['/'] ∨ root t = ['/', '/'] := by
    unfold root
    split
    · exact .inr (.inl rfl)
    · exact .inr (.inr rfl)
    · exact .inr (.inl rfl)
    · exact .inl rfl
  rcases hcases with ht | ht | ht <;> rw [ht]
  · exact ⟨root_of_head? h, rfl⟩
  · exact ⟨hone, parts_slash body⟩
  · exact ⟨htwo, (parts_slash _).trans (parts_slash body)⟩

/-- A path as it is written is written the same again. -/
theorem normalize_normalize (t : Text) : normalize (normalize t) = normalize t := by
  have hparts : ∀ p ∈ parts t, IsPart p := fun p hp => isPart_of_mem_parts hp
  obtain ⟨hroot, hsame⟩ := root_root_append (head?_join hparts) t
  by_cases hnil : root t ++ Text.join ['/'] (parts t) = []
  · rw [normalize_eq t, hnil]
    rfl
  · rw [normalize_of_ne_nil rfl hnil]
    refine normalize_of_ne_nil ?_ hnil
    rw [hroot, hsame, parts_join hparts]

theorem normalize_objectPath (source : Text) :
    normalize (objectPath source) = objectPath source := normalize_normalize _

end Path

/-! ## Files -/

namespace Store

/-- What is at a place once a node was put somewhere. -/
theorem node?_insert (s : Store) (place q : List Text) (node : Node) :
    (s.insert place node).node? q =
      if isGiven q then some .directory else if q = place then some node else s.node? q := by
  have hreplace : ((fun e : List Text × Node => decide (e.1 = q)) ∘
      fun e => if e.1 = place then (place, node) else e) = fun e => decide (e.1 = q) := by
    funext e
    by_cases he : e.1 = place <;> simp [he]
  unfold node?
  by_cases hg : isGiven q = true
  · rw [if_pos hg, if_pos hg]
  · rw [if_neg hg, if_neg hg, if_neg hg]
    unfold insert
    by_cases hfound : (s.entries.find? fun e => e.1 = place).isSome = true
    · rw [if_pos hfound]
      dsimp only
      rw [List.find?_map, hreplace, Option.map_map]
      by_cases hq : q = place
      · obtain ⟨e, he⟩ := Option.isSome_iff_exists.mp hfound
        have hplace : e.1 = place := by simpa using List.find?_some he
        rw [if_pos hq, hq, he, Option.map_some, Function.comp_apply, if_pos hplace]
      · rw [if_neg hq]
        apply Option.map_congr
        intro e he
        have heq : e.1 = q := by simpa using List.find?_some he
        rw [Function.comp_apply, if_neg fun hp => hq (heq.symm.trans hp)]
    · rw [if_neg hfound]
      dsimp only
      rw [List.find?_append, List.find?_singleton]
      by_cases hq : q = place
      · rw [Option.not_isSome_iff_eq_none] at hfound
        rw [if_pos hq, hq, hfound, Option.none_or, if_pos (decide_eq_true rfl)]
        rfl
      · rw [if_neg hq, if_neg (by simpa using fun h => hq h.symm), Option.or_none]

/-- Stores with the same directories. -/
def SameDirectories (s s' : Store) : Prop :=
  ∀ place, s'.node? place = some .directory ↔ s.node? place = some .directory

/-- Where a path leads by its first part. It goes on only from a directory. -/
theorem walk_cons_eq_ok_iff (s : Store) (place : List Text) (part : Text)
    (rest target : List Text) :
    s.walk place (part :: rest) = .ok target ↔
      if part = ['.'] then s.walk place rest = .ok target
      else if part = "..".toList then s.walk (parent place) rest = .ok target
      else if rest = [] then place ++ [part] = target
      else isTooLong part = false ∧ s.node? (place ++ [part]) = some .directory ∧
        s.walk (place ++ [part]) rest = .ok target := by
  rw [walk]
  split_ifs with hdot hup hlast hlong
  · exact Iff.rfl
  · exact Iff.rfl
  · rw [Except.ok.injEq]
  · simp [hlong]
  · cases hn : s.node? (place ++ [part]) with
    | none => simp
    | some node => cases node <;> simp [hlong]

theorem SameDirectories.walk_eq_ok_iff {s s' : Store} (h : s.SameDirectories s')
    (place path target : List Text) :
    s'.walk place path = .ok target ↔ s.walk place path = .ok target := by
  induction path generalizing place with
  | nil => exact Iff.rfl
  | cons part rest ih => rw [walk_cons_eq_ok_iff, walk_cons_eq_ok_iff, ih, ih, ih, h]

/-- Every path leads to the same place, if it leads anywhere. -/
theorem SameDirectories.locate_eq_ok_iff {s s' : Store} (h : s.SameDirectories s') (path : Text)
    (place : List Text) : s'.locate path = .ok place ↔ s.locate path = .ok place := by
  unfold locate
  split_ifs
  · exact Iff.rfl
  · exact Iff.rfl
  · exact Iff.rfl
  · exact h.walk_eq_ok_iff _ _ _

/-- Two paths that lead to the same place. -/
def SameFile (s : Store) (p q : Text) : Prop :=
  ∃ place, s.locate p = .ok place ∧ s.locate q = .ok place

section Write

variable {s s' : Store} {path : Text} {content : List UInt8}

/-- A write puts the content at the place its path leads to, which is no directory. -/
theorem write_eq_ok_iff : s.write path content = .ok s' ↔ ∃ place, s.locate path = .ok place ∧
    endsInSlash path = false ∧ s.node? place ≠ some .directory ∧
    place.getLast?.any isTooLong = false ∧ s' = s.insert place (.file content) := by
  unfold write
  cases hl : s.locate path with
  | error reason => simp
  | ok place =>
    simp only [Except.ok.injEq, exists_eq_left']
    split_ifs with hdir hlong
    · refine iff_of_false nofun fun h => ?_
      rcases hdir with hslash | hdir
      · rw [h.1] at hslash
        cases hslash
      · exact h.2.1 hdir
    · refine iff_of_false nofun fun h => ?_
      rw [h.2.2.1] at hlong
      cases hlong
    · rw [not_or, Bool.not_eq_true] at hdir
      rw [Bool.not_eq_true] at hlong
      rw [Except.ok.injEq]
      exact ⟨fun h => ⟨hdir.1, hdir.2, hlong, h.symm⟩, fun h => h.2.2.2.symm⟩

theorem sameDirectories_write (h : s.write path content = .ok s') : s.SameDirectories s' := by
  obtain ⟨place, -, -, hdir, -, rfl⟩ := write_eq_ok_iff.mp h
  intro q
  rw [node?_insert]
  split_ifs with hg hq
  · unfold node?
    rw [if_pos hg]
  · rw [hq]
    exact iff_of_false nofun hdir
  · exact Iff.rfl

theorem sameFile_write_iff (h : s.write path content = .ok s') (p q : Text) :
    s'.SameFile p q ↔ s.SameFile p q := by
  have hlocate := (sameDirectories_write h).locate_eq_ok_iff
  unfold SameFile
  simp only [hlocate]

theorem read_eq_ok_iff {bytes : List UInt8} : s.read path = .ok bytes ↔
    ∃ place, s.locate path = .ok place ∧ s.node? place = some (.file bytes) ∧
      endsInSlash path = false := by
  unfold read
  cases hl : s.locate path with
  | error reason => simp
  | ok place =>
    simp only [Except.ok.injEq, exists_eq_left']
    cases hn : s.node? place with
    | none => dsimp only; split_ifs <;> simp
    | some node =>
      cases node with
      | directory => simp
      | file c => dsimp only; split_ifs with hslash <;> simp [hslash]

/-- What was written is read back. -/
theorem read_written (h : s.write path content = .ok s') : s'.read path = .ok content := by
  have hlocate := (sameDirectories_write h).locate_eq_ok_iff
  obtain ⟨place, hl, hslash, hdir, -, rfl⟩ := write_eq_ok_iff.mp h
  have hg : ¬ isGiven place = true := fun hg => hdir (by unfold node?; rw [if_pos hg])
  refine read_eq_ok_iff.mpr ⟨place, (hlocate path place).mpr hl, ?_, hslash⟩
  rw [node?_insert, if_neg hg, if_pos rfl]

/-- A path that leads to another place than was written reads what it read. -/
theorem read_write_other {q : Text} {bytes : List UInt8} (h : s.write path content = .ok s')
    (hother : ¬ s.SameFile path q) (hq : s.read q = .ok bytes) : s'.read q = .ok bytes := by
  have hlocate := (sameDirectories_write h).locate_eq_ok_iff
  obtain ⟨place, hl, -, -, -, rfl⟩ := write_eq_ok_iff.mp h
  obtain ⟨place', hl', hn, hslash⟩ := read_eq_ok_iff.mp hq
  have hne : place' ≠ place := fun he => hother ⟨place, hl, he ▸ hl'⟩
  have hg : ¬ isGiven place' = true := by
    intro hg
    unfold node? at hn
    rw [if_pos hg] at hn
    cases hn
  refine read_eq_ok_iff.mpr ⟨place', (hlocate q place').mpr hl', ?_, hslash⟩
  rw [node?_insert, if_neg hg, if_neg hne, hn]

end Write

end Store

end TwoPass
