import TwoPass.CommandLine.Reader
import TwoPass.Proofs.Reading

/-
  What arguments spell, and what is relied on of a toolkit. `Spells` is the grammar of command
  lines: a value follows its option or is joined to it, short switches share a dash, `--` makes the
  rest plain arguments. No arguments spell two things (`Spells.unique`). A toolkit is `Documented`
  if it calls the command only as arguments spell it; the toolkit that the reader makes is one
  (`documented_plain`), because what the reader accepts is the grammar (`readItems_eq_ok_iff`).
-/

namespace TwoPass.CommandLine

/-! ## The grammar -/

/-- What short options behind one dash spell: items, and an option that a value has to follow. -/
inductive Cluster : Text → List Item → Option Valued → Prop
  | nil : Cluster [] [] none
  | switch {c cs s items pending} : Opt.short.lookup c = some (.switch s) →
      Cluster cs items pending → Cluster (c :: cs) (.switch s :: items) pending
  | joined {c v value} : Opt.short.lookup c = some (.valued v) → value ≠ [] →
      Cluster (c :: value) [.value v value] none
  | pending {c v} : Opt.short.lookup c = some (.valued v) → Cluster [c] [] (some v)

/-- What one argument spells that is an option, or several short ones. -/
inductive Opens : Text → List Item → Option Valued → Prop
  | switch {name s} : Opt.long.lookup name = some (.switch s) → Opens name [.switch s] none
  | joined {name v} (value : Text) : Opt.long.lookup name = some (.valued v) →
      Opens (name ++ '=' :: value) [.value v value] none
  | pending {name v} : Opt.long.lookup name = some (.valued v) → Opens name [] (some v)
  | cluster {body items pending} : body ≠ [] → Cluster body items pending →
      Opens ('-' :: body) items pending

/-- What arguments spell. -/
inductive Spells : List Text → List Item → Prop
  | nil : Spells [] []
  | rest (args : List Text) : Spells ("--".toList :: args) (args.map .argument)
  /-- A plain argument does not begin with a dash, or is one. -/
  | argument {text args items} : (∀ c cs, text ≠ '-' :: c :: cs) → Spells args items →
      Spells (text :: args) (.argument text :: items)
  | option {arg args found items} : Opens arg found none → Spells args items →
      Spells (arg :: args) (found ++ items)
  /-- The value is the next argument, whatever it looks like. -/
  | valued {arg value args found items v} : Opens arg found (some v) → Spells args items →
      Spells (arg :: value :: args) (found ++ .value v value :: items)

/-- What items call the command with. -/
structure Invocation.AskedBy (i : Invocation) (readLimit : Text → Except Text Int)
    (items : List Item) : Prop where
  /-- There is one plain argument, the input. -/
  input : (arguments items).map Path.normalize = [i.input]
  output : i.output = (lastValue .output items).map Path.normalize
  listing : i.listing = (lastValue .listing items).map Path.normalize
  symbols : i.symbols = (lastValue .symbols items).map Path.normalize
  strict : i.strict = lastStrict items
  /-- A value that cannot be read is refused. -/
  maxAddress : (lastValue .maxAddress items).mapM readLimit = .ok i.maxAddress
  echo : i.echo = hasSwitch .echo items
  verbose : i.verbose = hasSwitch .verbose items

/-- What is relied on of a toolkit: it calls the command as the arguments spell it. -/
structure Toolkit.Documented (toolkit : Toolkit) : Prop where
  call : ∀ readLimit files args i, toolkit.parse readLimit files args = .ok i →
    ∃ items, Spells args items ∧ i.AskedBy readLimit items

/-! ## Names of options -/

theorem long_of_lookup {name : Text} {o : Opt} (h : Opt.long.lookup name = some o) :
    '=' ∉ name ∧ ∃ c cs, name = '-' :: '-' :: c :: cs := by
  obtain ⟨before, after, hlong, -⟩ := List.lookup_eq_some_iff.mp h
  have hmem : (name, o) ∈ Opt.long := by
    rw [hlong]
    exact List.mem_append_right _ List.mem_cons_self
  have hnames : ∀ p ∈ Opt.long, '=' ∉ p.1 ∧ p.1.take 2 = "--".toList ∧ 2 < p.1.length := by
    decide
  obtain ⟨hequals, hdashes, hlength⟩ := hnames _ hmem
  refine ⟨hequals, ?_⟩
  match name, hdashes, hlength with
  | _ :: _ :: c :: cs, hdashes, _ =>
    cases hdashes
    exact ⟨c, cs, rfl⟩

theorem short_of_lookup {c : Char} {o : Opt} (h : Opt.short.lookup c = some o) :
    c ≠ '-' ∧ c ≠ '=' := by
  refine ⟨?_, ?_⟩ <;> rintro rfl <;> cases h

theorem Cluster.head {body : Text} {items : List Item} {pending : Option Valued}
    (h : Cluster body items pending) (hbody : body ≠ []) :
    ∃ c cs, body = c :: cs ∧ c ≠ '-' ∧ c ≠ '=' := by
  cases h with
  | nil => exact absurd rfl hbody
  | switch hc _ => exact ⟨_, _, rfl, short_of_lookup hc⟩
  | joined hc _ => exact ⟨_, _, rfl, short_of_lookup hc⟩
  | pending hc => exact ⟨_, _, rfl, short_of_lookup hc⟩

/-- An option begins with a dash and is neither one dash nor two. -/
theorem Opens.dashed {arg : Text} {found : List Item} {pending : Option Valued}
    (h : Opens arg found pending) : arg ≠ ['-', '-'] ∧ ∃ c cs, arg = '-' :: c :: cs := by
  cases h with
  | switch hname =>
    obtain ⟨-, c, cs, rfl⟩ := long_of_lookup hname
    exact ⟨nofun, _, _, rfl⟩
  | joined value hname =>
    obtain ⟨-, c, cs, rfl⟩ := long_of_lookup hname
    exact ⟨nofun, _, _, rfl⟩
  | pending hname =>
    obtain ⟨-, c, cs, rfl⟩ := long_of_lookup hname
    exact ⟨nofun, _, _, rfl⟩
  | cluster hbody hc =>
    obtain ⟨c, cs, rfl, hdash, -⟩ := hc.head hbody
    refine ⟨fun heq => ?_, _, _, rfl⟩
    cases heq
    exact hdash rfl

/-! ## The reader accepts the grammar -/

theorem cluster_of_readCluster {body : Text} {r : Reading} (h : readCluster body = .ok r) :
    Cluster body r.items (r.pending.map Prod.fst) := by
  induction body generalizing r with
  | nil =>
    cases h
    exact .nil
  | cons c cs ih =>
    unfold readCluster at h
    split at h
    · cases h
    · rename_i hc
      obtain ⟨r', hr, rfl⟩ := map_eq_ok_iff.mp h
      exact .switch hc (ih hr)
    · rename_i hc
      split_ifs at h with hcs
      · cases h
        rw [hcs]
        exact .pending hc
      · cases h
        exact .joined hc hcs

theorem Cluster.readCluster_eq {body : Text} {items : List Item} {pending : Option Valued}
    (h : Cluster body items pending) :
    ∃ r, readCluster body = .ok r ∧ r.items = items ∧ r.pending.map Prod.fst = pending := by
  induction h with
  | nil => exact ⟨{}, rfl, rfl, rfl⟩
  | switch hc _ ih =>
    obtain ⟨r, hr, rfl, rfl⟩ := ih
    unfold readCluster
    rw [hc]
    dsimp only
    rw [hr]
    exact ⟨_, rfl, rfl, rfl⟩
  | joined hc hvalue =>
    unfold readCluster
    rw [hc]
    dsimp only
    rw [if_neg hvalue]
    exact ⟨_, rfl, rfl, rfl⟩
  | pending hc =>
    unfold readCluster
    rw [hc]
    exact ⟨_, rfl, rfl, rfl⟩

theorem splitValue_append {name : Text} (h : '=' ∉ name) (rest : Text) :
    splitValue (name ++ rest) = (name ++ (splitValue rest).1, (splitValue rest).2) := by
  have hname : ∀ c ∈ name, decide (c ≠ '=') = true := fun c hc =>
    decide_eq_true fun heq => h (heq ▸ hc)
  unfold splitValue
  rw [List.takeWhile_append_of_pos hname, List.dropWhile_append_of_pos hname]

theorem splitValue_plain {name : Text} (h : '=' ∉ name) : splitValue name = (name, none) := by
  simpa [splitValue] using splitValue_append h []

theorem splitValue_joined {name : Text} (h : '=' ∉ name) (value : Text) :
    splitValue (name ++ '=' :: value) = (name, some value) := by
  simpa [splitValue] using splitValue_append h ('=' :: value)

theorem opens_of_readOption {c : Char} {cs : Text} {r : Reading}
    (h : readOption ('-' :: c :: cs) = .ok r) :
    Opens ('-' :: c :: cs) r.items (r.pending.map Prod.fst) := by
  -- what is no long option is read behind its dash
  have hshort : ∀ fault : UsageFault, (if ('-' :: c :: cs).take 2 = ['-', '-'] then .error fault
      else readCluster (('-' :: c :: cs).drop 1)) = .ok r →
      Opens ('-' :: c :: cs) r.items (r.pending.map Prod.fst) := by
    intro fault h
    split_ifs at h
    exact .cluster (List.cons_ne_nil _ _) (cluster_of_readCluster h)
  unfold readOption at h
  by_cases hequals : '=' ∈ '-' :: c :: cs
  · obtain ⟨name, value, harg, hname⟩ := List.eq_append_cons_of_mem hequals
    rw [harg, splitValue_joined hname] at h
    dsimp only at h
    cases hlong : Opt.long.lookup name with
    | none =>
      rw [hlong, ← harg] at h
      exact hshort _ h
    | some o =>
      rw [hlong] at h
      cases o with
      | switch s => cases h
      | valued v =>
        cases h
        rw [harg]
        exact .joined value hlong
  · rw [splitValue_plain hequals] at h
    dsimp only at h
    cases hlong : Opt.long.lookup ('-' :: c :: cs) with
    | none =>
      rw [hlong] at h
      exact hshort _ h
    | some o =>
      rw [hlong] at h
      cases o with
      | switch s =>
        cases h
        exact .switch hlong
      | valued v =>
        cases h
        exact .pending hlong

theorem Opens.readOption_eq {arg : Text} {found : List Item} {pending : Option Valued}
    (h : Opens arg found pending) :
    ∃ r, readOption arg = .ok r ∧ r.items = found ∧ r.pending.map Prod.fst = pending := by
  unfold readOption
  cases h with
  | switch hname =>
    rw [splitValue_plain (long_of_lookup hname).1]
    dsimp only
    rw [hname]
    exact ⟨_, rfl, rfl, rfl⟩
  | joined value hname =>
    rw [splitValue_joined (long_of_lookup hname).1]
    dsimp only
    rw [hname]
    exact ⟨_, rfl, rfl, rfl⟩
  | pending hname =>
    rw [splitValue_plain (long_of_lookup hname).1]
    dsimp only
    rw [hname]
    exact ⟨_, rfl, rfl, rfl⟩
  | cluster hbody hcluster =>
    obtain ⟨c, cs, rfl, hdash, hequals⟩ := hcluster.head hbody
    have hname : splitValue ('-' :: c :: cs) =
        ('-' :: c :: (splitValue cs).1, (splitValue cs).2) :=
      @splitValue_append ['-', c] (by simp [hequals.symm]) cs
    have hlong : Opt.long.lookup ('-' :: c :: (splitValue cs).1) = none := by
      refine Option.eq_none_iff_forall_ne_some.mpr fun o ho => ?_
      obtain ⟨-, c', cs', heq⟩ := long_of_lookup ho
      exact hdash (List.cons.inj (List.cons.inj heq).2).1
    have hdashes : ('-' :: c :: cs).take 2 ≠ ['-', '-'] := by
      intro heq
      cases heq
      exact hdash rfl
    rw [hname]
    dsimp only
    rw [hlong]
    dsimp only
    rw [if_neg hdashes]
    exact hcluster.readCluster_eq

theorem isOption_iff {arg : Text} : isOption arg = true ↔ ∃ c cs, arg = '-' :: c :: cs := by
  unfold isOption
  split
  · exact iff_of_true rfl ⟨_, _, rfl⟩
  · rename_i hplain
    exact iff_of_false nofun fun ⟨c, cs, heq⟩ => hplain c cs heq

theorem spells_of_readItems {args : List Text} {items : List Item}
    (h : readItems args = .ok items) : Spells args items := by
  fun_induction readItems args generalizing items with
  | case1 =>
    cases h
    exact .nil
  | case2 rest =>
    cases h
    exact .rest rest
  | case3 => cases h
  | case4 arg rest _ hoption found hread ih =>
    obtain ⟨more, hmore, rfl⟩ := map_eq_ok_iff.mp h
    obtain ⟨c, cs, rfl⟩ := isOption_iff.mp hoption
    exact .option (opens_of_readOption hread) (ih hmore)
  | case5 => cases h
  | case6 arg _ hoption found v name hread value rest ih =>
    obtain ⟨more, hmore, rfl⟩ := map_eq_ok_iff.mp h
    obtain ⟨c, cs, rfl⟩ := isOption_iff.mp hoption
    exact .valued (opens_of_readOption hread) (ih hmore)
  | case7 arg rest _ hoption ih =>
    obtain ⟨more, hmore, rfl⟩ := map_eq_ok_iff.mp h
    exact .argument (fun c cs heq => hoption (isOption_iff.mpr ⟨c, cs, heq⟩)) (ih hmore)

theorem Spells.readItems_eq {args : List Text} {items : List Item} (h : Spells args items) :
    readItems args = .ok items := by
  induction h with
  | nil => rfl
  | rest args => rfl
  | argument hplain _ ih =>
    have hoption : ¬ isOption _ = true := fun ho =>
      let ⟨c, cs, heq⟩ := isOption_iff.mp ho
      hplain c cs heq
    unfold readItems
    rw [if_neg (hplain _ _), if_neg hoption, ih]
    rfl
  | option hopens _ ih =>
    obtain ⟨⟨found, pending⟩, hread, rfl, hpending⟩ := hopens.readOption_eq
    obtain ⟨hdashes, hoption⟩ := hopens.dashed
    cases Option.map_eq_none_iff.mp hpending
    unfold readItems
    rw [if_neg hdashes, if_pos (isOption_iff.mpr hoption), hread]
    dsimp only
    rw [ih]
    rfl
  | valued hopens _ ih =>
    obtain ⟨⟨found, pending⟩, hread, rfl, hpending⟩ := hopens.readOption_eq
    obtain ⟨hdashes, hoption⟩ := hopens.dashed
    obtain ⟨⟨v, name⟩, hname, rfl⟩ := Option.map_eq_some_iff.mp hpending
    cases hname
    unfold readItems
    rw [if_neg hdashes, if_pos (isOption_iff.mpr hoption), hread]
    dsimp only
    rw [ih]
    rfl

/-- What the reader accepts is the grammar. -/
theorem readItems_eq_ok_iff {args : List Text} {items : List Item} :
    readItems args = .ok items ↔ Spells args items :=
  ⟨spells_of_readItems, Spells.readItems_eq⟩

theorem Spells.unique {args : List Text} {items items' : List Item} (h : Spells args items)
    (h' : Spells args items') : items' = items := by
  rw [← readItems_eq_ok_iff] at h h'
  exact Except.ok.inj (h'.symm.trans h)

/-! ## The toolkit of the reader -/

theorem mapError_eq_ok_iff {ε ε' α : Type} {f : ε → ε'} {x : Except ε α} {a : α} :
    x.mapError f = .ok a ↔ x = .ok a := by
  cases x <;> simp [Except.mapError]

theorem checkInput_eq_ok {files : Store} {path input : Text}
    (h : checkInput files path = .ok input) : input = Path.normalize path := by
  unfold checkInput at h
  split at h
  · cases h
  · cases h
  · cases h
    rfl

theorem checkOutput_eq_ok {files : Store} {items : List Item} {v : Valued} {path : Option Text}
    (h : checkOutput files items v = .ok path) :
    path = (lastValue v items).map Path.normalize := by
  unfold checkOutput at h
  split at h
  · rename_i hlast
    cases h
    rw [hlast, Option.map_none]
  · rename_i hlast
    rw [hlast, Option.map_some]
    split at h
    · cases h
    · cases h
      rfl

theorem askedBy_of_readInvocation {readLimit : Text → Except Text Int} {files : Store}
    {items : List Item} {i : Invocation} (h : readInvocation readLimit files items = .ok i) :
    i.AskedBy readLimit items := by
  unfold readInvocation at h
  obtain ⟨_, -, h⟩ := bind_eq_ok h
  split at h
  · cases h
  · rename_i path extra harguments
    obtain ⟨input, hinput, h⟩ := bind_eq_ok h
    obtain ⟨output, houtput, h⟩ := bind_eq_ok h
    obtain ⟨listing, hlisting, h⟩ := bind_eq_ok h
    obtain ⟨symbols, hsymbols, h⟩ := bind_eq_ok h
    obtain ⟨maxAddress, hlimit, h⟩ := bind_eq_ok h
    split_ifs at h with hextra
    cases h
    rw [not_not] at hextra
    exact
      { input := by rw [harguments, hextra, checkInput_eq_ok hinput]; rfl
        output := checkOutput_eq_ok houtput
        listing := checkOutput_eq_ok hlisting
        symbols := checkOutput_eq_ok hsymbols
        strict := rfl
        maxAddress := mapError_eq_ok_iff.mp hlimit
        echo := rfl
        verbose := rfl }

/-- The reader does what is relied on, whatever it says and traces. -/
theorem documented_plain (word : Refusal → Ending) (trace : Text → Text) :
    (Toolkit.plain word trace).Documented where
  call readLimit files args i h := by
    have hread : read readLimit files args = .ok i := mapError_eq_ok_iff.mp h
    unfold read at hread
    obtain ⟨items, hitems, hread⟩ := bind_eq_ok hread
    refine ⟨items, readItems_eq_ok_iff.mp (mapError_eq_ok_iff.mp hitems), ?_⟩
    split at hread
    · cases hread
    · exact askedBy_of_readInvocation (mapError_eq_ok_iff.mp hread)

end TwoPass.CommandLine
