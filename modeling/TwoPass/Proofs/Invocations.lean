import TwoPass.CommandLine.Run
import TwoPass.Proofs.Arguments
import TwoPass.Proofs.Sessions

/-
  A run of the command. Its commands assemble one file and then write, each write to a path that
  is known beforehand. An assembly that fails ends the run before the first write; behind one that
  succeeds a command can fail only at a file, the assembly is kept, and a file at no path that is
  written keeps its content (`performAll_writes`). So the status tells an assembly error from any
  other end, and behind a success the object program is where it should be
  (`run_status_assembly`). The options in effect and the paths are those that the arguments spell,
  whichever toolkit reads them, as long as it is `Documented`.
-/

namespace TwoPass

/-! ## What a run can fail with -/

theorem ErrorKind.code_eq_one_iff {kind : ErrorKind} : kind.status.code = 1 ↔ kind = .build := by
  cases kind <;> decide

/-- Every kind of error has a status that tells it from a success. -/
theorem ErrorKind.code_pos (kind : ErrorKind) : 0 < kind.status.code := by
  cases kind <;> decide

/-- A failure at a file is no build error. -/
theorem Failure.one_lt_code_file (fault : FileFault) : 1 < (Failure.file fault).status.code := by
  unfold status kind
  dsimp only
  split_ifs <;> decide

/-- Of the failures that commands have, the build errors are the diagnosed faults of an assembly. -/
theorem Failure.code_eq_one_iff {failure : Failure} (h : ∀ fault, failure ≠ .objectFile fault) :
    failure.status.code = 1 ↔
      ∃ fault, failure = .assembly fault ∧ fault.cause.isDiagnosed = true := by
  cases failure with
  | assembly fault =>
    rw [status, ErrorKind.code_eq_one_iff]
    simp [kind]
  | objectFile fault => exact absurd rfl (h fault)
  | file fault => exact iff_of_false (Nat.ne_of_gt (one_lt_code_file fault)) (by simp)
  | decoding fault => exact iff_of_false nofun (by simp)
  | setting fault => exact iff_of_false nofun (by simp)

namespace Session

variable {s : Session}

/-- Assembling a file reads no object file. -/
theorem assembleFile_failure {path : Text} {failure : Failure}
    (h : (s.assembleFile path).2.result = .error failure) :
    ∀ fault, failure ≠ .objectFile fault := by
  rintro fault rfl
  unfold assembleFile at h
  dsimp only at h
  split at h
  · cases h
  · split at h
    · unfold outcomeReply at h
      dsimp only at h
      split at h <;> cases h
    · unfold brokenReply at h
      split at h <;> cases h

/-- Assembling a file changes no file. It fails, or keeps the program that it answers with. -/
theorem assembleFile_cases (s : Session) (path : Text) :
    (s.assembleFile path).1.files = s.files ∧
      ((∃ done, (s.assembleFile path).1.assembler.assembly = some done ∧
        (s.assembleFile path).2.result = .ok (.assembled done.program)) ∨
      ∃ failure, (s.assembleFile path).2.result = .error failure) := by
  cases hread : s.files.read (Path.normalize path) with
  | ok bytes =>
    obtain ⟨kept, listing, reply, hall, hcases⟩ :=
      perform_assembling s.assembler.options s.files (c := .assembleFile path) ⟨bytes, hread⟩
    rw [show s.assembleFile path = _ from hall s.assembler rfl]
    refine ⟨rfl, ?_⟩
    obtain ⟨done, rfl, hok⟩ | ⟨failure, -, herror⟩ := hcases
    · exact .inl ⟨done, rfl, hok⟩
    · exact .inr ⟨failure, herror⟩
  | error fault =>
    unfold assembleFile
    dsimp only
    rw [hread]
    exact ⟨rfl, .inr ⟨_, rfl⟩⟩

theorem assembleFile_normalize (s : Session) (path : Text) :
    s.assembleFile (Path.normalize path) = s.assembleFile path := by
  unfold assembleFile
  rw [Path.normalize_normalize]

end Session

/-! ## The writes of a run -/

/-- The path that a command writes to, if it is known beforehand. -/
def Command.target? : Command → Option Text
  | .writeObject path => path.map Path.normalize
  | .writeListing path => some path
  | .writeSymbols path => some path
  | _ => none

/-- A write behind an assembly writes one file, or fails at that file and changes nothing. -/
theorem Session.perform_write {s : Session} {c : Command} {done : Assembly} {target : Text}
    (hdone : s.assembler.assembly = some done) (hc : c.target? = some target) :
    (s.perform c).1.assembler = s.assembler ∧
      ((∃ content answer, s.files.write target content = .ok (s.perform c).1.files ∧
        (s.perform c).2.result = .ok answer) ∨
      ∃ fault, (s.perform c).1.files = s.files ∧
        (s.perform c).2.result = .error (.file fault)) := by
  have hwrite : ∃ text said answer, s.perform c = s.writeFile target text said answer := by
    cases c with
    | assembleText source file => cases hc
    | assembleFile path => cases hc
    | writeObject path =>
      obtain ⟨path, rfl, rfl⟩ := Option.map_eq_some_iff.mp hc
      exact ⟨done.program.render, _, _, writeObject_of_some hdone Option.some_or⟩
    | writeListing path => cases hc; exact ⟨_, _, _, rfl⟩
    | writeSymbols path => cases hc; exact ⟨_, _, _, rfl⟩
  obtain ⟨text, said, answer, heq⟩ := hwrite
  rw [heq]
  obtain ⟨files, hok, hs⟩ | ⟨fault, -, hs⟩ := s.writeFile_cases target text said answer
  · rw [hs]
    exact ⟨rfl, .inl ⟨_, answer, hok, rfl⟩⟩
  · rw [hs]
    exact ⟨rfl, .inr ⟨fault, rfl, rfl⟩⟩

namespace CommandLine

/-- Commands behind one that fails are not performed. -/
theorem performAll_error {p : Progress} {c : Command} {failure : Failure}
    (h : (p.session.perform c).2.result = .error failure) (rest : List Command) :
    (performAll p (c :: rest)).session = (p.session.perform c).1 ∧
      (performAll p (c :: rest)).failure = some failure := by
  unfold performAll
  dsimp only
  rw [h]
  exact ⟨rfl, rfl⟩

theorem performAll_ok {p : Progress} {c : Command} {answer : Answer}
    (h : (p.session.perform c).2.result = .ok answer) (rest : List Command) :
    ∃ q : Progress, q.session = (p.session.perform c).1 ∧ q.failure = p.failure ∧
      performAll p (c :: rest) = performAll q rest := by
  refine ⟨{ p with
    session := (p.session.perform c).1
    printed := p.printed ++ (p.session.perform c).2.printed
    notices := p.notices ++ (p.session.perform c).2.notices }, rfl, rfl, ?_⟩
  rw [performAll]
  dsimp only
  rw [h]

/-- What writes behind an assembly do: they keep it, they fail only at a file, and a file keeps its
    content that none of them writes to. -/
theorem performAll_writes {commands : List Command} {p : Progress} {done : Assembly}
    (hwrites : ∀ c ∈ commands, c.target?.isSome = true) (hp : p.failure = none)
    (hdone : p.session.assembler.assembly = some done) :
    (performAll p commands).session.assembler = p.session.assembler ∧
      (∀ failure, (performAll p commands).failure = some failure →
        ∃ fault, failure = .file fault) ∧
      ∀ path bytes, p.session.files.read path = .ok bytes →
        (∀ c ∈ commands, ∀ target ∈ c.target?, ¬ p.session.files.SameFile target path) →
        (performAll p commands).session.files.read path = .ok bytes := by
  induction commands generalizing p with
  | nil =>
    refine ⟨rfl, fun failure h => ?_, fun _ _ hread _ => hread⟩
    cases hp.symm.trans h
  | cons c rest ih =>
    obtain ⟨hc, hrest⟩ := List.forall_mem_cons.mp hwrites
    obtain ⟨target, hc⟩ := Option.isSome_iff_exists.mp hc
    obtain ⟨hkept, ⟨content, answer, hwrite, hok⟩ | ⟨fault, hfiles, herror⟩⟩ :=
      Session.perform_write hdone hc
    · obtain ⟨q, hq, hfailure, heq⟩ := performAll_ok hok rest
      obtain ⟨hsame, hfails, hreads⟩ := ih hrest (hfailure.trans hp) (by rw [hq, hkept, hdone])
      rw [heq]
      refine ⟨by rw [hsame, hq, hkept], hfails, fun path bytes hread hother => ?_⟩
      -- a write moves no path, so the writes behind it go to other files as before
      rw [hq] at hreads
      refine hreads path bytes (Store.read_write_other hwrite
        (hother c List.mem_cons_self target hc) hread) fun c' hc' target' ht' => ?_
      rw [Store.sameFile_write_iff hwrite]
      exact hother c' (List.mem_cons_of_mem _ hc') target' ht'
    · obtain ⟨hsession, hfailure⟩ := performAll_error herror rest
      rw [hsession, hfailure, hfiles, hkept]
      refine ⟨rfl, fun failure h => ?_, fun path bytes hread _ => hread⟩
      cases h
      exact ⟨fault, rfl⟩

/-- An object program that is written, with writes to other files behind it, is there in the end. -/
theorem performAll_writeObject {p : Progress} {rest : List Command} {done : Assembly}
    {path : Text} (hp : p.failure = none) (hdone : p.session.assembler.assembly = some done)
    (hrest : ∀ c ∈ rest, c.target?.isSome = true)
    (hother : ∀ c ∈ rest, ∀ target ∈ c.target?,
      ¬ p.session.files.SameFile target (Path.normalize path))
    (h : (performAll p (.writeObject (some path) :: rest)).failure = none) :
    (performAll p (.writeObject (some path) :: rest)).session.files.read (Path.normalize path) =
      .ok (Utf8.encode done.program.render) := by
  have hwrites : p.session.perform (.writeObject (some path)) = _ :=
    Session.writeObject_of_some hdone Option.some_or
  obtain ⟨files, hfiles, hs⟩ | ⟨fault, -, hs⟩ := p.session.writeFile_cases (Path.normalize path)
    done.program.render ("Wrote " ++ Path.normalize path) (.written (Path.normalize path))
  · have hperform := hwrites.trans hs
    obtain ⟨q, hq, hfailure, heq⟩ := performAll_ok (congrArg (·.2.result) hperform) rest
    rw [hperform] at hq
    obtain ⟨-, -, hreads⟩ := performAll_writes (p := q) hrest (hfailure.trans hp)
      (by rw [hq]; exact hdone)
    rw [heq]
    rw [hq] at hreads
    refine hreads _ _ (Store.read_written hfiles) fun c hc target htarget => ?_
    rw [Store.sameFile_write_iff hfiles]
    exact hother c hc target htarget
  · obtain ⟨-, hfailure⟩ := performAll_error (congrArg (·.2.result) (hwrites.trans hs)) rest
    cases h.symm.trans hfailure

/-! ## The options in effect -/

/-- The options that an environment and an invocation make together: what the invocation gives goes
    before what the environment gives, and that before the default. -/
def Invocation.effective (i : Invocation) (e : Environment) : Options where
  rejectUndefined := i.strict.getD (e.strict.any Options.asksStrict)
  rejectDuplicates := i.strict.getD (e.strict.any Options.asksStrict)
  maxAddress := i.maxAddress.getD ((e.maxAddress.bind HexLiteral.read?).getD topAddress)
  verbose := i.verbose

theorem ofEnvironment_eq (e : Environment) : (Options.ofEnvironment e).1 =
    { rejectUndefined := e.strict.any Options.asksStrict
      rejectDuplicates := e.strict.any Options.asksStrict
      maxAddress := (e.maxAddress.bind HexLiteral.read?).getD topAddress } := by
  unfold Options.ofEnvironment Options.setStrict
  cases e.maxAddress with
  | none => rfl
  | some value =>
    cases value with
    | nil => rfl
    | cons c cs =>
      rw [Option.bind_some]
      dsimp only
      cases HexLiteral.read? (c :: cs) with
      | none => rfl
      | some n => rfl

theorem Invocation.options_eq (i : Invocation) (e : Environment) :
    i.options (Options.ofEnvironment e).1 = i.effective e := by
  rw [ofEnvironment_eq]
  unfold options effective Options.setStrict
  cases i.strict <;> cases i.maxAddress <;> rfl

/-! ## What the arguments say -/

theorem readLimit_eq_ok_iff {value : Text} {n : Int} :
    readLimit value = .ok n ↔ HexLiteral.read? value = some n := by
  unfold readLimit
  cases HexLiteral.read? value <;> simp

namespace Invocation.AskedBy

variable {i : Invocation} {items : List Item}

theorem exists_input {readLimit : Text → Except Text Int} (h : i.AskedBy readLimit items) :
    ∃ input, arguments items = [input] ∧ i.input = Path.normalize input := by
  obtain ⟨input, hinput, heq⟩ := List.map_eq_singleton_iff.mp h.input
  exact ⟨input, hinput, heq.symm⟩

/-- A limit that is given has been read, and goes before that of the environment. -/
theorem limit_eq (h : i.AskedBy readLimit items) (other : Option Text) (default : Int) :
    i.maxAddress.getD ((other.bind HexLiteral.read?).getD default) =
      (((lastValue .maxAddress items).or other).bind HexLiteral.read?).getD default := by
  have hlimit := h.maxAddress
  cases hlast : lastValue .maxAddress items with
  | none =>
    rw [hlast] at hlimit
    rw [← Except.ok.inj hlimit]
    rfl
  | some value =>
    rw [hlast] at hlimit
    obtain ⟨n, hn, hsome⟩ := bind_eq_ok hlimit
    rw [← Except.ok.inj hsome, Option.some_or, Option.bind_some, readLimit_eq_ok_iff.mp hn]
    rfl

theorem effective_eq (h : i.AskedBy readLimit items) (e : Environment) : i.effective e =
    { rejectUndefined := (lastStrict items).getD (e.strict.any Options.asksStrict)
      rejectDuplicates := (lastStrict items).getD (e.strict.any Options.asksStrict)
      maxAddress :=
        (((lastValue .maxAddress items).or e.maxAddress).bind HexLiteral.read?).getD 0x7FFF
      verbose := hasSwitch .verbose items } := by
  unfold effective
  rw [h.limit_eq, h.strict, h.verbose]
  rfl

theorem objectPath_eq {readLimit : Text → Except Text Int} (h : i.AskedBy readLimit items)
    {input : Text} (hinput : i.input = Path.normalize input) :
    i.objectPath =
      Path.normalize ((lastValue .output items).getD (Path.normalize input ++ ".obj")) := by
  unfold objectPath
  rw [h.output, hinput]
  cases lastValue .output items <;> rfl

end Invocation.AskedBy

/-! ## The status of a run -/

namespace Invocation

variable (i : Invocation) (e : Environment) (files : Store)

/-- How far the commands of a run come. -/
def progress : Progress :=
  performAll { session := .start (i.effective e) files, notices := (Options.ofEnvironment e).2 }
    i.commands

variable {i e files} (toolkit : Toolkit)

theorem run_of_failure {failure : Failure} (h : (i.progress e files).failure = some failure) :
    (i.run toolkit e files).status = failure.status ∧
      (i.run toolkit e files).files = (i.progress e files).session.files := by
  unfold progress at h ⊢
  rw [← options_eq] at h ⊢
  unfold run
  dsimp only
  rw [h]
  exact ⟨rfl, rfl⟩

/-- A run whose commands succeed is a success, unless it cannot write the summary. -/
theorem run_of_success {done : Assembly} (h : (i.progress e files).failure = none)
    (hdone : (i.progress e files).session.assembler.assembly = some done) :
    ((i.run toolkit e files).status = .success ∨
      (i.run toolkit e files).status = .internalError) ∧
      (i.run toolkit e files).files = (i.progress e files).session.files := by
  have hprogram : (i.progress e files).session.assembler.program = .ok done.program := by
    unfold Assembler.program
    rw [hdone]
  unfold progress at h hprogram ⊢
  rw [← options_eq] at h hprogram ⊢
  unfold run
  dsimp only
  rw [h, hprogram]
  dsimp only
  split
  · exact ⟨.inr rfl, rfl⟩
  · exact ⟨.inl rfl, rfl⟩

/-- What is written behind the object program. -/
def extras (i : Invocation) : List Command :=
  i.listing.toList.map .writeListing ++ i.symbols.toList.map .writeSymbols

theorem target_of_mem_extras {c : Command} (h : c ∈ i.extras) :
    ∃ path, c.target? = some path ∧ (i.listing = some path ∨ i.symbols = some path) := by
  obtain h | h := List.mem_append.mp h
  · obtain ⟨path, hpath, rfl⟩ := List.mem_map.mp h
    exact ⟨path, rfl, .inl (Option.mem_toList.mp hpath)⟩
  · obtain ⟨path, hpath, rfl⟩ := List.mem_map.mp h
    exact ⟨path, rfl, .inr (Option.mem_toList.mp hpath)⟩

/-- Where the input does not assemble, the run ends there. -/
theorem run_of_error {failure : Failure}
    (h : ((Session.start (i.effective e) files).assembleFile i.input).2.result = .error failure) :
    (i.run toolkit e files).status = failure.status ∧ (i.run toolkit e files).files = files := by
  obtain ⟨hfiles, -⟩ := (Session.start (i.effective e) files).assembleFile_cases i.input
  obtain ⟨hsession, hfailure⟩ := performAll_error
    (p := { session := .start (i.effective e) files, notices := (Options.ofEnvironment e).2 })
    (c := .assembleFile i.input) h (.writeObject (some i.objectPath) :: i.extras)
  obtain ⟨hstatus, hleft⟩ := run_of_failure toolkit hfailure
  exact ⟨hstatus, hleft.trans ((congrArg Session.files hsession).trans hfiles)⟩

/-- Where it does, the run is no build error, and if it succeeds the object program is in its
    place. -/
theorem run_of_assembled {done : Assembly}
    (hkept : ((Session.start (i.effective e) files).assembleFile i.input).1.assembler.assembly =
      some done)
    (hok : ((Session.start (i.effective e) files).assembleFile i.input).2.result =
      .ok (.assembled done.program)) :
    (i.run toolkit e files).status.code ≠ 1 ∧
      ((i.run toolkit e files).status.code = 0 →
        (∀ path, i.listing = some path ∨ i.symbols = some path →
          ¬ files.SameFile path (Path.normalize i.objectPath)) →
        (i.run toolkit e files).files.read (Path.normalize i.objectPath) =
          .ok (Utf8.encode done.program.render)) := by
  obtain ⟨hfiles, -⟩ := (Session.start (i.effective e) files).assembleFile_cases i.input
  obtain ⟨q, hq, hfailure, heq⟩ := performAll_ok
    (p := { session := .start (i.effective e) files, notices := (Options.ofEnvironment e).2 })
    (c := .assembleFile i.input) hok (.writeObject (some i.objectPath) :: i.extras)
  replace heq : i.progress e files = _ := heq
  have hdone : q.session.assembler.assembly = some done := by rw [hq]; exact hkept
  have hsource : q.session.files = files := by rw [hq]; exact hfiles
  have hextras : ∀ c ∈ i.extras, c.target?.isSome = true := by
    intro c hc
    obtain ⟨path, hpath, -⟩ := target_of_mem_extras hc
    rw [hpath, Option.isSome_some]
  have hwrites : ∀ c ∈ Command.writeObject (some i.objectPath) :: i.extras,
      c.target?.isSome = true := List.forall_mem_cons.mpr ⟨rfl, hextras⟩
  obtain ⟨hsame, hfails, -⟩ := performAll_writes hwrites hfailure hdone
  rw [← heq] at hsame hfails
  cases hend : (i.progress e files).failure with
  | some failure =>
    obtain ⟨fault, rfl⟩ := hfails failure hend
    have hcode := Failure.one_lt_code_file fault
    rw [(run_of_failure toolkit hend).1]
    exact ⟨by omega, by omega⟩
  | none =>
    obtain ⟨hstatus, hleft⟩ := run_of_success toolkit hend (by rw [hsame, hdone])
    refine ⟨by obtain h | h := hstatus <;> rw [h] <;> decide, fun _ hother => ?_⟩
    rw [hleft, heq]
    refine performAll_writeObject hfailure hdone hextras (fun c hc target htarget => ?_)
      (heq ▸ hend)
    obtain ⟨path, hpath, hextra⟩ := target_of_mem_extras hc
    cases hpath.symm.trans htarget
    rw [hsource]
    exact hother target hextra

/-- The status of a run tells whether its input assembles, and behind a success the object program
    is there. -/
theorem run_status (i : Invocation) (e : Environment) (files : Store) :
    let assembled := ((Session.start (i.effective e) files).assembleFile i.input).2.result
    let result := i.run toolkit e files
    (result.status.code = 1 ↔
      ∃ fault, assembled = .error (.assembly fault) ∧ fault.cause.isDiagnosed = true) ∧
    (result.status.code = 1 → result.files = files) ∧
    (result.status.code = 0 → ∃ program, assembled = .ok (.assembled program) ∧
      ((∀ path, i.listing = some path ∨ i.symbols = some path →
        ¬ files.SameFile path (Path.normalize i.objectPath)) →
        result.files.read (Path.normalize i.objectPath) = .ok (Utf8.encode program.render))) := by
  intro assembled result
  obtain ⟨-, ⟨done, hkept, hok⟩ | ⟨failure, herror⟩⟩ :=
    (Session.start (i.effective e) files).assembleFile_cases i.input
  · obtain ⟨hcode, hread⟩ := run_of_assembled toolkit hkept hok
    have hassembled : ¬ ∃ fault, assembled = .error (.assembly fault) ∧
        fault.cause.isDiagnosed = true := by
      rintro ⟨fault, hfault, -⟩
      cases hok.symm.trans hfault
    exact ⟨iff_of_false hcode hassembled, fun hone => absurd hone hcode,
      fun hzero => ⟨done.program, hok, hread hzero⟩⟩
  · obtain ⟨hstatus, hfiles⟩ := run_of_error toolkit herror
    rw [show result.status = failure.status from hstatus, show result.files = files from hfiles,
      show assembled = .error failure from herror,
      Failure.code_eq_one_iff (Session.assembleFile_failure herror)]
    refine ⟨by simp only [Except.error.injEq], fun _ => rfl, fun hzero => ?_⟩
    exact absurd hzero (Nat.ne_of_gt failure.kind.code_pos)

end Invocation

/-- Nothing is written on an assembly error. Arguments that call the command spell one thing, with
    one input. The run has status 1 exactly if that input does not assemble under the options that
    the arguments and the environment give, for a diagnosed fault, and then it changes no file; if
    it has status 0, the object program of that assembly is at the path of `-o`, or else of the
    input with `.obj`, unless the listing or the symbols went there. -/
theorem run_status_assembly {toolkit : Toolkit} (hdocumented : toolkit.Documented)
    {args : List Text} {e : Environment} {files : Store} {i : Invocation}
    (h : toolkit.parse readLimit files args = .ok i) :
    ∃ items input, Spells args items ∧ (∀ other, Spells args other → other = items) ∧
      arguments items = [input] ∧
      let strict := (lastStrict items).getD (e.strict.any Options.asksStrict)
      let options : Options :=
        { rejectUndefined := strict
          rejectDuplicates := strict
          maxAddress :=
            (((lastValue .maxAddress items).or e.maxAddress).bind HexLiteral.read?).getD 0x7FFF
          verbose := hasSwitch .verbose items }
      let target := Path.normalize ((lastValue .output items).getD (Path.normalize input ++ ".obj"))
      let assembled := ((Session.start options files).assembleFile input).2.result
      let result := run toolkit args e files
      (result.status.code = 1 ↔
        ∃ fault, assembled = .error (.assembly fault) ∧ fault.cause.isDiagnosed = true) ∧
      (result.status.code = 1 → result.files = files) ∧
      (result.status.code = 0 → ∃ program, assembled = .ok (.assembled program) ∧
        ((∀ v path, v = .listing ∨ v = .symbols → lastValue v items = some path →
          ¬ files.SameFile (Path.normalize path) target) →
          result.files.read target = .ok (Utf8.encode program.render))) := by
  obtain ⟨items, hspells, hasked⟩ := hdocumented.call _ _ _ _ h
  obtain ⟨input, harguments, hinput⟩ := hasked.exists_input
  refine ⟨items, input, hspells, fun other => hspells.unique, harguments, ?_⟩
  intro strict options target assembled result
  obtain ⟨hone, hfiles, hzero⟩ := i.run_status toolkit e files
  have hresult : i.run toolkit e files = result := by
    change _ = run toolkit args e files
    unfold run
    rw [h]
  have htarget : Path.normalize i.objectPath = target := by
    rw [hasked.objectPath_eq hinput, Path.normalize_normalize]
  have hassembled : ((Session.start (i.effective e) files).assembleFile i.input).2.result =
      assembled := by
    rw [hasked.effective_eq, hinput, Session.assembleFile_normalize]
  rw [hresult, hassembled] at hone hzero
  rw [hresult] at hfiles
  refine ⟨hone, hfiles, fun hcode => ?_⟩
  obtain ⟨program, hprogram, hread⟩ := hzero hcode
  rw [htarget, hasked.listing, hasked.symbols] at hread
  refine ⟨program, hprogram, fun hother => hread fun path hextra => ?_⟩
  obtain hextra | hextra := hextra
  · obtain ⟨path, hpath, rfl⟩ := Option.map_eq_some_iff.mp hextra
    exact hother .listing path (.inl rfl) hpath
  · obtain ⟨path, hpath, rfl⟩ := Option.map_eq_some_iff.mp hextra
    exact hother .symbols path (.inr rfl) hpath

/-- A file whose source is above the usual limit and names a symbol that it does not define. -/
def high : Store := ({} : Store).put "high.asm" (.file (Utf8.encode
  "HIGH  START 9000\n      J     NOWHERE\n      END   HIGH\n"))

/-- Arguments that raise the limit and let the undefined symbol pass. -/
def raised : List Text :=
  ["high.asm", "-o", "high.obj", "-lhigh.lst", "--max-address=FFFF", "--no-strict"]

/-- A toolkit that says nothing of what it refuses. -/
def Toolkit.silent : Toolkit := .plain (fun _ => { status := .invalidArguments }) fun _ => []

theorem run_status_assembly_raised :
    Toolkit.silent.Documented ∧
    (∃ i, Toolkit.silent.parse readLimit high raised = .ok i) ∧
    (run .silent raised { strict := some "yes" } high).status.code = 0 ∧
    ∃ program, ((Session.start { maxAddress := 0xFFFF } high).assembleFile "high.asm").2.result =
        .ok (.assembled program) ∧
      program.render = "HHIGH  009000000003\nT3C0000\nM00900004+NOWHERE\nE009000\n".toList ∧
      (run .silent raised { strict := some "yes" } high).files.read "high.obj" =
        .ok (Utf8.encode program.render) := by
  have hdocumented : Toolkit.silent.Documented := documented_plain _ _
  have hparse : Toolkit.silent.parse readLimit high raised = .ok
      { input := "high.asm", output := some "high.obj", listing := some "high.lst"
        strict := some false, maxAddress := some 0xFFFF } := by decide +kernel
  have hcode : (run .silent raised { strict := some "yes" } high).status.code = 0 := by
    decide +kernel
  obtain ⟨items, input, hspells, -, harguments, -, -, hzero⟩ :=
    run_status_assembly hdocumented (e := { strict := some "yes" }) hparse
  have hitems : readItems raised = .ok [.argument "high.asm", .value .output "high.obj",
      .value .listing "high.lst", .value .maxAddress "FFFF", .switch .noStrict] := by decide +kernel
  replace hitems := (readItems_eq_ok_iff.mp hitems).unique hspells
  have hstrict : lastStrict items = some false := by rw [hitems]; rfl
  have hlimit : lastValue .maxAddress items = some "FFFF".toList := by rw [hitems]; rfl
  have houtput : lastValue .output items = some "high.obj".toList := by rw [hitems]; rfl
  have hverbose : hasSwitch .verbose items = false := by rw [hitems]; rfl
  have hinput : input = "high.asm".toList := by
    rw [hitems] at harguments
    exact (List.cons.inj harguments).1.symm
  have hvalue : HexLiteral.read? "FFFF" = some 0xFFFF := by decide +kernel
  have hpath : Path.normalize "high.obj" = "high.obj".toList := by decide +kernel
  simp only [hstrict, hlimit, houtput, hverbose, hinput, Option.getD_some, Option.some_or,
    Option.bind_some, hvalue, hpath] at hzero
  obtain ⟨program, hprogram, hread⟩ := hzero hcode
  have hrender : (((Session.start { maxAddress := 0xFFFF } high).assembleFile
      "high.asm").2.result.toOption.map fun
        | .assembled program => program.render
        | _ => []) =
      some "HHIGH  009000000003\nT3C0000\nM00900004+NOWHERE\nE009000\n".toList := by
    decide +kernel
  rw [hprogram] at hrender
  refine ⟨hdocumented, ⟨_, hparse⟩, hcode, program, hprogram, Option.some.inj hrender,
    hread fun v path hv hlast => ?_⟩
  have hlisting : path = "high.lst".toList := by
    rw [hitems] at hlast
    obtain rfl | rfl := hv
    · exact (Option.some.inj hlast).symm
    · cases hlast
  rw [hlisting]
  rintro ⟨place, hplace, hobject⟩
  exact absurd (hplace.trans hobject.symm) (by decide +kernel)

end CommandLine

end TwoPass
