import Mathlib.Data.List.Induction
import TwoPass.Proofs.Stores
import TwoPass.Session

/-
  An assembler through many commands. A command that assembles goes by the options and the files
  alone and replaces the assembly that was kept (`perform_assembling`); any other command keeps it
  (`perform_idle`). The options never change, and the source path is that of the last file asked
  for. So what a history leaves behind makes no difference to the next assembly
  (`assembling_forgets`). The default output path goes by the last file asked for, which is the
  source of the kept program if it could be opened and no text was assembled since
  (`default_path_of_last_file`), and not otherwise (`default_path_of_another_source`).
-/

namespace TwoPass

namespace Command

/-- A command that assembles something: a text, or a file that can be opened. -/
def Assembles (files : Store) : Command → Prop
  | .assembleText _ _ => True
  | .assembleFile path => ∃ bytes, files.read (Path.normalize path) = .ok bytes
  | _ => False

/-- The source file that a command asks for. -/
def file? : Command → Option Text
  | .assembleFile path => some (Path.normalize path)
  | _ => none

end Command

namespace Assembler

variable {a b : Assembler} {done : Assembly}

theorem objectText_of_some (h : a.assembly = some done) :
    a.objectText = .ok done.program.render := by
  unfold objectText program
  rw [h]
  rfl

theorem objectText_of_none (h : a.assembly = none) :
    a.objectText = .error { cause := .nothingAssembled } := by
  unfold objectText program
  rw [h]
  rfl

/-- Two assemblers from which the same can be had. -/
structure Agrees (a b : Assembler) : Prop where
  program : a.program = b.program
  objectText : a.objectText = b.objectText
  symbols : a.symbols = b.symbols
  name : a.layout.name = b.layout.name
  load : a.layout.load = b.layout.load
  length : a.layout.length = b.layout.length
  listing : a.listing = b.listing
  listingText : a.listingText = b.listingText

theorem agrees_of_eq (h : a.assembly = b.assembly) (hlisting : a.listing = b.listing) :
    a.Agrees b := by
  have hprogram : a.program = b.program := by unfold program; rw [h]
  have hlayout : a.layout = b.layout := by unfold layout; rw [h]
  have hsymbols : a.symbols = b.symbols := by unfold symbols; rw [hlayout]
  exact ⟨hprogram, by unfold objectText; rw [hprogram], hsymbols, by rw [hlayout],
    by rw [hlayout], by rw [hlayout], hlisting, by unfold listingText; rw [hlisting, hsymbols]⟩

end Assembler

namespace Session

variable {s : Session} {c : Command}

/-! ## One command -/

theorem outcomeReply_cases (o : Outcome) (printed : Text) :
    (∃ done, o.result.toOption = some done ∧
      (outcomeReply o printed).result = .ok (.assembled done.program)) ∨
    ∃ failure, o.result.toOption = none ∧ (outcomeReply o printed).result = .error failure := by
  unfold outcomeReply
  cases o.result with
  | ok done => exact .inl ⟨done, rfl, rfl⟩
  | error fault => exact .inr ⟨_, rfl, rfl⟩

/-- What a command that assembles does, by the options and the files alone: it replaces the assembly
    and the listing, and keeps a program exactly if its answer is one. -/
theorem perform_assembling (options : Options) (files : Store) (hc : c.Assembles files) :
    ∃ kept listing reply, (∀ a : Assembler, a.options = options → perform ⟨a, files⟩ c =
        (⟨{ a with assembly := kept, listing, source := c.file?.or a.source }, files⟩, reply)) ∧
      ((∃ done, kept = some done ∧ reply.result = .ok (.assembled done.program)) ∨
        ∃ failure, kept = none ∧ reply.result = .error failure) := by
  cases c with
  | assembleText source file =>
    refine ⟨_, (TwoPass.assembleText options file source).listing, _, fun a ha => ?_,
      outcomeReply_cases (TwoPass.assembleText options file source)
        (Assembler.say { options } "Assembling from string...")⟩
    rw [← ha]
    rfl
  | assembleFile path =>
    obtain ⟨bytes, hb⟩ := hc
    have hsay : ∀ a : Assembler, a.options = options → ∀ line, Assembler.say { options } line =
        { a with source := some (Path.normalize path) }.say line := by
      intro a ha line
      rw [← ha]
      rfl
    cases hf : SourceFile.ofBytes bytes with
    | mk lines fault =>
      cases fault with
      | none =>
        refine ⟨_, (assemble options (Path.normalize path) lines).listing, _, fun a ha => ?_,
          outcomeReply_cases (assemble options (Path.normalize path) lines)
            (Assembler.say { options } ("Assembling " ++ Path.normalize path ++ "..."))⟩
        rw [hsay a ha, ← ha]
        simp only [perform, assembleFile, hb, hf]
        rfl
      | some fault =>
        refine ⟨none, [], brokenReply options (Path.normalize path) lines fault
          (Assembler.say { options } ("Assembling " ++ Path.normalize path ++ "...")),
          fun a ha => ?_, .inr ?_⟩
        · rw [hsay a ha, ← ha]
          simp only [perform, assembleFile, hb, hf]
          rfl
        · unfold brokenReply
          split <;> exact ⟨_, rfl, rfl⟩
  | writeObject path => exact absurd hc id
  | writeListing path => exact absurd hc id
  | writeSymbols path => exact absurd hc id

/-- A write changes one file or nothing. -/
theorem writeFile_cases (s : Session) (path text said : Text) (answer : Answer) :
    (∃ files, s.files.writeText path text = .ok files ∧ s.writeFile path text said answer =
      ({ s with files }, { result := .ok answer, printed := s.assembler.say said })) ∨
    ∃ fault, s.files.writeText path text = .error fault ∧
      s.writeFile path text said answer = (s, { result := .error (.file fault) }) := by
  unfold writeFile
  cases s.files.writeText path text with
  | ok files => exact .inl ⟨files, rfl, rfl⟩
  | error fault => exact .inr ⟨fault, rfl, rfl⟩

theorem writeFile_assembler (s : Session) (path text said : Text) (answer : Answer) :
    (s.writeFile path text said answer).1.assembler = s.assembler := by
  obtain ⟨files, -, h⟩ | ⟨fault, -, h⟩ := s.writeFile_cases path text said answer <;> rw [h]

theorem writeObject_of_some {path : Option Text} {done : Assembly} {target : Text}
    (h : s.assembler.assembly = some done)
    (htarget : path.or s.assembler.defaultPath = some target) :
    s.writeObject path = s.writeFile (Path.normalize target) done.program.render
      ("Wrote " ++ Path.normalize target) (.written (Path.normalize target)) := by
  unfold writeObject
  rw [htarget]
  dsimp only
  rw [Assembler.objectText_of_some h]

/-- An object program is written if one is kept and there is a path for it: the one that was given,
    or else that of the source file. -/
theorem writeObject_cases (s : Session) (path : Option Text) :
    (∃ target done, path.or s.assembler.defaultPath = some target ∧
      s.assembler.assembly = some done ∧
      s.writeObject path = s.writeFile (Path.normalize target) done.program.render
        ("Wrote " ++ Path.normalize target) (.written (Path.normalize target))) ∨
    ∃ fault, s.writeObject path = (s, { result := .error (.assembly fault) }) ∧
      fault.cause.isDiagnosed = true := by
  cases htarget : path.or s.assembler.defaultPath with
  | none =>
    refine .inr ⟨{ cause := .noOutputPath }, ?_, rfl⟩
    unfold writeObject
    rw [htarget]
  | some target =>
    cases hdone : s.assembler.assembly with
    | none =>
      refine .inr ⟨{ cause := .nothingAssembled }, ?_, rfl⟩
      unfold writeObject
      rw [htarget]
      dsimp only
      rw [Assembler.objectText_of_none hdone]
    | some done => exact .inl ⟨target, done, rfl, rfl, writeObject_of_some hdone htarget⟩

theorem writeObject_of_none (h : s.assembler.assembly = none) (path : Option Text) :
    ∃ fault, s.writeObject path = (s, { result := .error (.assembly fault) }) ∧
      fault.cause.isDiagnosed = true := by
  obtain ⟨target, done, -, hdone, -⟩ | hfault := s.writeObject_cases path
  · cases h.symm.trans hdone
  · exact hfault

theorem writeObject_written {path : Option Text} {p : Text}
    (h : (s.writeObject path).2.result = .ok (.written p)) :
    ∃ target done, path.or s.assembler.defaultPath = some target ∧ p = Path.normalize target ∧
      s.assembler.assembly = some done ∧
      s.files.writeText p done.program.render = .ok (s.writeObject path).1.files := by
  obtain ⟨target, done, htarget, hdone, heq⟩ | ⟨fault, heq, -⟩ := s.writeObject_cases path
  · rw [heq] at h ⊢
    obtain ⟨files, hwrite, hs⟩ | ⟨fault, -, hs⟩ := s.writeFile_cases (Path.normalize target)
      done.program.render ("Wrote " ++ Path.normalize target) (.written (Path.normalize target))
    · rw [hs] at h ⊢
      cases h
      exact ⟨target, done, htarget, rfl, hdone, hwrite⟩
    · rw [hs] at h
      cases h
  · rw [heq] at h
    cases h

theorem writeObject_assembler (s : Session) (path : Option Text) :
    (s.writeObject path).1.assembler = s.assembler := by
  obtain ⟨target, done, -, -, heq⟩ | ⟨fault, heq, -⟩ := s.writeObject_cases path
  · rw [heq, writeFile_assembler]
  · rw [heq]

/-- A command that assembles nothing may ask for another file, and that is all it changes of the
    assembler. -/
theorem perform_idle (hc : ¬ c.Assembles s.files) : (s.perform c).1.assembler =
    { s.assembler with source := c.file?.or s.assembler.source } := by
  cases c with
  | assembleText source file => exact absurd trivial hc
  | assembleFile path =>
    have hread : ∃ fault, s.files.read (Path.normalize path) = .error fault := by
      cases hb : s.files.read (Path.normalize path) with
      | ok bytes => exact absurd ⟨bytes, hb⟩ hc
      | error fault => exact ⟨fault, rfl⟩
    obtain ⟨fault, hfault⟩ := hread
    simp only [perform, assembleFile, hfault]
    rfl
  | writeObject path => exact writeObject_assembler s path
  | writeListing path => exact writeFile_assembler s _ _ _ _
  | writeSymbols path => exact writeFile_assembler s _ _ _ _

/-- Whatever a command does, the options stay, and the source path changes to that of the file it
    asks for. -/
theorem perform_assembler (s : Session) (c : Command) : ∃ kept listing, (s.perform c).1.assembler =
    { s.assembler with assembly := kept, listing, source := c.file?.or s.assembler.source } := by
  by_cases hc : c.Assembles s.files
  · obtain ⟨kept, listing, reply, hall, -⟩ := perform_assembling s.assembler.options s.files hc
    refine ⟨kept, listing, ?_⟩
    rw [show s.perform c = _ from hall s.assembler rfl]
  · exact ⟨_, _, perform_idle hc⟩

/-! ## A history of commands -/

/-- The session that commands lead to, whether or not they succeed. -/
def through (s : Session) (commands : List Command) : Session :=
  commands.foldl (fun s c => (s.perform c).1) s

theorem through_cons (s : Session) (c : Command) (rest : List Command) :
    s.through (c :: rest) = (s.perform c).1.through rest := rfl

theorem through_append (s : Session) (before after : List Command) :
    s.through (before ++ after) = (s.through before).through after := List.foldl_append

theorem through_options (s : Session) (history : List Command) :
    (s.through history).assembler.options = s.assembler.options := by
  induction history generalizing s with
  | nil => rfl
  | cons c rest ih =>
    obtain ⟨kept, listing, h⟩ := s.perform_assembler c
    rw [through_cons, ih, h]

/-! ## No memory of earlier assemblies -/

/-- A session that has nothing to show: what asks for a program fails and touches no file. -/
structure Cleared (s : Session) : Prop where
  program : ∃ fault, s.assembler.program = .error fault ∧ fault.cause.isDiagnosed = true
  objectText : ∃ fault, s.assembler.objectText = .error fault ∧ fault.cause.isDiagnosed = true
  unwritten : ∀ path, ∃ fault, s.perform (.writeObject path) =
    (s, { result := .error (.assembly fault) }) ∧ fault.cause.isDiagnosed = true
  symbols : s.assembler.symbols = {}
  load : s.assembler.layout.load = 0
  length : s.assembler.layout.length = 0

theorem cleared_of_none (h : s.assembler.assembly = none) : s.Cleared := by
  have hprogram : s.assembler.program = .error { cause := .nothingAssembled } := by
    unfold Assembler.program
    rw [h]
  have hlayout : s.assembler.layout = {} := by
    unfold Assembler.layout
    rw [h]
    rfl
  refine ⟨⟨_, hprogram, rfl⟩, ⟨_, Assembler.objectText_of_none h, rfl⟩, writeObject_of_none h,
    ?_, ?_, ?_⟩
  · unfold Assembler.symbols
    rw [hlayout]
  · rw [hlayout]
  · rw [hlayout]
    rfl

/-- Assembling leaves no trace of what came before. Behind any history, a command that assembles
    gives the reply that it gives to an assembler that was just made, changes no file, and leaves
    the same to be had; if it fails, it leaves nothing. -/
theorem assembling_forgets (options : Options) (files : Store) (history : List Command)
    (c : Command) (hc : c.Assembles ((start options files).through history).files) :
    let s := (start options files).through history
    let used := s.perform c
    let fresh := (start options s.files).perform c
    used.2 = fresh.2 ∧ used.1.files = s.files ∧ used.1.assembler.Agrees fresh.1.assembler ∧
      ∀ failure, used.2.result = .error failure → used.1.Cleared := by
  intro s used fresh
  obtain ⟨kept, listing, reply, hall, hcases⟩ := perform_assembling options s.files hc
  rw [show used = _ from hall s.assembler (through_options _ history),
    show fresh = _ from hall { options } rfl]
  refine ⟨rfl, rfl, Assembler.agrees_of_eq rfl rfl, fun failure hfailure => ?_⟩
  obtain ⟨done, -, hok⟩ | ⟨-, hnone, -⟩ := hcases
  · cases hok.symm.trans hfailure
  · exact cleared_of_none hnone

/-- Two sources, of which the second has no end. -/
def twoSources : Store :=
  (({} : Store).put "a.asm" (.file (Utf8.encode "ALPHA START 1000\n RSUB\n END ALPHA\n"))).put
    "b.asm" (.file (Utf8.encode "BETA START 0\n RSUB\n"))

/-- The first source, assembled and written. -/
def firstWritten : List Command := [.assembleFile "a.asm", .writeObject none]

/-- A source that fails at its very end clears what another left. -/
theorem assembling_forgets_unended :
    ((start {} twoSources).through firstWritten).assembler.assembly.isSome = true ∧
      (Command.assembleFile "b.asm").Assembles
        ((start {} twoSources).through firstWritten).files ∧
      (((start {} twoSources).through firstWritten).perform (.assembleFile "b.asm")).2.result =
        .error (.assembly { cause := .endMissing "b.asm" }) ∧
      (((start {} twoSources).through firstWritten).perform (.assembleFile "b.asm")).1.Cleared := by
  have hopens : (Command.assembleFile "b.asm").Assembles
      ((start {} twoSources).through firstWritten).files :=
    ⟨Utf8.encode "BETA START 0\n RSUB\n", by decide +kernel⟩
  have hfails : (((start {} twoSources).through firstWritten).perform
      (.assembleFile "b.asm")).2.result = .error (.assembly { cause := .endMissing "b.asm" }) := by
    decide +kernel
  obtain ⟨-, -, -, hcleared⟩ := assembling_forgets {} twoSources firstWritten _ hopens
  exact ⟨by decide +kernel, hopens, hfails, hcleared _ hfails⟩

/-! ## The default output path -/

/-- Commands of which none assembles when its turn comes. -/
def Idle : Session → List Command → Prop
  | _, [] => True
  | s, c :: rest => ¬ c.Assembles s.files ∧ (s.perform c).1.Idle rest

theorem Idle.through_assembly {s : Session} {commands : List Command} (h : s.Idle commands) :
    (s.through commands).assembler.assembly = s.assembler.assembly := by
  induction commands generalizing s with
  | nil => rfl
  | cons c rest ih => rw [through_cons, ih h.2, perform_idle h.1]

theorem Idle.not_assembles {s : Session} {before after : List Command}
    (h : s.Idle (before ++ c :: after)) : ¬ c.Assembles (s.through before).files := by
  induction before generalizing s with
  | nil => exact h.1
  | cons first rest ih => exact ih h.2

/-- Commands are idle, or one of them is the last that assembles. -/
theorem idle_or_assembles (s : Session) (history : List Command) : s.Idle history ∨
    ∃ before c after, history = before ++ c :: after ∧ c.Assembles (s.through before).files ∧
      ((s.through before).perform c).1.Idle after := by
  induction history generalizing s with
  | nil => exact .inl trivial
  | cons c rest ih =>
    obtain hidle | ⟨before, last, after, rfl, hlast, hidle⟩ := ih (s.perform c).1
    · by_cases hc : c.Assembles s.files
      · exact .inr ⟨[], c, rest, rfl, hc, hidle⟩
      · exact .inl ⟨hc, hidle⟩
    · exact .inr ⟨c :: before, last, after, rfl, hlast, hidle⟩

/-- The program that is kept comes from the last command that assembles. -/
theorem through_start_assembly {options : Options} {files : Store} {history : List Command}
    {done : Assembly}
    (h : ((start options files).through history).assembler.assembly = some done) :
    ∃ before c after, history = before ++ c :: after ∧
      c.Assembles ((start options files).through before).files ∧
      (((start options files).through before).perform c).2.result =
        .ok (.assembled done.program) ∧
      (((start options files).through before).perform c).1.Idle after := by
  obtain hidle | ⟨before, c, after, rfl, hc, hidle⟩ :=
    idle_or_assembles (start options files) history
  · rw [hidle.through_assembly] at h
    cases h
  · refine ⟨before, c, after, rfl, hc, ?_, hidle⟩
    rw [through_append, through_cons, hidle.through_assembly] at h
    obtain ⟨kept, listing, reply, hall, hcases⟩ := perform_assembling _ _ hc
    rw [show ((start options files).through before).perform c = _ from hall _ rfl] at h ⊢
    obtain ⟨done', rfl, hok⟩ | ⟨-, rfl, -⟩ := hcases
    · cases h
      exact hok
    · cases h

/-- The source path comes from the last file that was asked for. -/
theorem through_start_source {options : Options} {files : Store} {history : List Command}
    {source : Text}
    (h : ((start options files).through history).assembler.source = some source) :
    ∃ before f after, history = before ++ .assembleFile f :: after ∧
      (∀ g, .assembleFile g ∉ after) ∧ source = Path.normalize f := by
  induction history using List.reverseRecOn with
  | nil => cases h
  | append_singleton history c ih =>
    obtain ⟨kept, listing, hperform⟩ := ((start options files).through history).perform_assembler c
    replace h : c.file?.or ((start options files).through history).assembler.source =
        some source := by
      rw [through_append, through_cons] at h
      exact (congrArg Assembler.source hperform).symm.trans h
    cases hfile : c.file? with
    | some path =>
      cases c with
      | assembleFile f =>
        cases hfile
        cases h
        exact ⟨history, f, [], rfl, fun _ => List.not_mem_nil, rfl⟩
      | _ => cases hfile
    | none =>
      rw [hfile, Option.none_or] at h
      obtain ⟨before, f, after, rfl, hafter, hsource⟩ := ih h
      refine ⟨before, f, after ++ [c], by simp, fun g hg => ?_, hsource⟩
      rw [List.mem_append, List.mem_singleton] at hg
      obtain hg | rfl := hg
      · exact hafter g hg
      · cases hfile

/-- The last command that assembles is the last that asks for a file, exactly if that file can be
    opened and no text is assembled behind it. -/
theorem last_assembling_eq_iff {s : Session} {before after earlier later : List Command}
    {f : Text} (heq : earlier ++ c :: later = before ++ .assembleFile f :: after)
    (hafter : ∀ g, .assembleFile g ∉ after) (hc : c.Assembles (s.through earlier).files)
    (hidle : ((s.through earlier).perform c).1.Idle later) :
    earlier = before ↔ (Command.assembleFile f).Assembles (s.through before).files ∧
      ∀ source file, .assembleText source file ∉ after := by
  constructor
  · rintro rfl
    obtain ⟨rfl, rfl⟩ := List.cons.inj (List.append_cancel_left heq)
    refine ⟨hc, fun source file hmem => ?_⟩
    obtain ⟨a, b, rfl⟩ := List.append_of_mem hmem
    exact hidle.not_assembles trivial
  · intro ⟨hf, htext⟩
    obtain ⟨between, hbefore, hbetween⟩ | ⟨between, hearlier, hbetween⟩ :=
      List.append_eq_append_iff.mp heq
    · cases between with
      | nil => rw [hbefore, List.append_nil]
      | cons first between =>
        -- the file would be opened behind the last command that assembles
        obtain ⟨rfl, rfl⟩ := List.cons.inj hbetween
        rw [hbefore, through_append, through_cons] at hf
        exact absurd hf hidle.not_assembles
    · cases between with
      | nil => rw [hearlier, List.append_nil]
      | cons first between =>
        have hmem : c ∈ after := by
          rw [(List.cons.inj hbetween).2]
          exact List.mem_append_right _ List.mem_cons_self
        cases c with
        | assembleText source file => exact absurd hmem (htext source file)
        | assembleFile g => exact absurd hmem (hafter g)
        | writeObject path => exact absurd hc id
        | writeListing path => exact absurd hc id
        | writeSymbols path => exact absurd hc id

/-- Without a path, an object program goes beside the last file that was asked for, and it is that
    of the last command that assembled. The two are one command exactly if the file could be opened
    and no text was assembled since. -/
theorem default_path_of_last_file {options : Options} {files : Store} {history : List Command}
    {p : Text} (h : (((start options files).through history).perform (.writeObject none)).2.result =
      .ok (.written p)) :
    ∃ before f after, history = before ++ .assembleFile f :: after ∧
      (∀ g, .assembleFile g ∉ after) ∧ p = Path.objectPath (Path.normalize f) ∧
      ∃ earlier c later program, history = earlier ++ c :: later ∧
        (((start options files).through earlier).perform c).2.result = .ok (.assembled program) ∧
        (((start options files).through earlier).perform c).1.Idle later ∧
        (((start options files).through history).perform (.writeObject none)).1.files.read p =
          .ok (Utf8.encode program.render) ∧
        (earlier = before ↔
          (Command.assembleFile f).Assembles ((start options files).through before).files ∧
          ∀ source file, .assembleText source file ∉ after) := by
  obtain ⟨target, done, htarget, rfl, hdone, hwrite⟩ := writeObject_written h
  rw [Option.none_or] at htarget
  obtain ⟨source, hsource, rfl⟩ := Option.map_eq_some_iff.mp htarget
  obtain ⟨before, f, after, hhistory, hafter, rfl⟩ := through_start_source hsource
  obtain ⟨earlier, c, later, hhistory', hc, hresult, hidle⟩ := through_start_assembly hdone
  refine ⟨before, f, after, hhistory, hafter, Path.normalize_objectPath _, earlier, c, later,
    done.program, hhistory', hresult, hidle, Store.read_written hwrite, ?_⟩
  exact last_assembling_eq_iff (hhistory'.symm.trans hhistory) hafter hc hidle

/-- A text, and a file behind it. -/
def textThenFile : List Command :=
  [.assembleText "GAMMA START 0\n END\n" "<input>", .assembleFile "a.asm"]

/-- What is written behind both goes beside the file. -/
theorem default_path_of_last_file_behind_text :
    (((start {} twoSources).through textThenFile).perform (.writeObject none)).2.result =
        .ok (.written "a.asm.obj") ∧
      ∃ f, .assembleFile f ∈ textThenFile ∧ "a.asm.obj" = Path.objectPath (Path.normalize f) ∧
        ∃ earlier c later program, textThenFile = earlier ++ c :: later ∧
          (((start {} twoSources).through earlier).perform c).2.result =
            .ok (.assembled program) ∧
          (((start {} twoSources).through textThenFile).perform (.writeObject none)).1.files.read
            "a.asm.obj" = .ok (Utf8.encode program.render) := by
  have hwritten : (((start {} twoSources).through textThenFile).perform
      (.writeObject none)).2.result = .ok (.written "a.asm.obj") := by
    decide +kernel
  obtain ⟨before, f, after, hf, -, hp, earlier, c, later, program, hc, hresult, -, hread, -⟩ :=
    default_path_of_last_file hwritten
  have hmem : .assembleFile f ∈ textThenFile :=
    hf ▸ List.mem_append_right before List.mem_cons_self
  exact ⟨hwritten, f, hmem, hp, earlier, c, later, program, hc, hresult, hread⟩

/-- A text that is assembled behind a file is written beside that file; and a program is written
    beside a file that was only asked for since and is not there. -/
theorem default_path_of_another_source :
    let string := ((start {} twoSources).through
      [.assembleFile "a.asm", .assembleText "GAMMA START 0\n END\n" "<input>"]).perform
        (.writeObject none)
    let missing := ((start {} twoSources).through
      [.assembleFile "a.asm", .assembleFile "c.asm"]).perform (.writeObject none)
    string.2.result = .ok (.written "a.asm.obj") ∧
      string.1.files.read "a.asm.obj" =
        .ok (Utf8.encode "HGAMMA 000000000000\nE000000\n") ∧
      missing.2.result = .ok (.written "c.asm.obj") ∧
      missing.1.files.read "c.asm.obj" =
        .ok (Utf8.encode "HALPHA 001000000003\nT4C0000\nE001000\n") := by
  decide +kernel

end Session

end TwoPass
