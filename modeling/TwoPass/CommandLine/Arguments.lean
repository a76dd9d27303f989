import TwoPass.Number.HexLiteral

/-
  The command line: the options that the command declares, what arguments ask for, and what the
  command is called with.
-/

namespace TwoPass.CommandLine

/-- Options that take a value. -/
inductive Valued
  | output
  | listing
  | symbols
  | maxAddress
  deriving DecidableEq

/-- Options that take none. -/
inductive Switch
  | strict
  | noStrict
  | echo
  | verbose
  | version
  | help
  deriving DecidableEq

inductive Opt
  | valued (v : Valued)
  | switch (s : Switch)
  deriving DecidableEq

def Opt.long : List (Text × Opt) :=
  [("--output", .valued .output), ("--listing", .valued .listing), ("--symbols", .valued .symbols),
    ("--max-address", .valued .maxAddress), ("--strict", .switch .strict),
    ("--no-strict", .switch .noStrict), ("--echo", .switch .echo), ("--verbose", .switch .verbose),
    ("--version", .switch .version), ("--help", .switch .help)]

def Opt.short : List (Char × Opt) :=
  [('o', .valued .output), ('l', .valued .listing), ('s', .valued .symbols), ('e', .switch .echo),
    ('v', .switch .verbose)]

/-- One item of a command line. -/
inductive Item
  | value (v : Valued) (text : Text)
  | switch (s : Switch)
  | argument (text : Text)
  deriving DecidableEq

/-- The value an option has: that of its last use. -/
def lastValue (v : Valued) (items : List Item) : Option Text :=
  items.reverse.findSome? fun
    | .value w text => if w = v then some text else none
    | _ => none

def hasSwitch (s : Switch) (items : List Item) : Bool := items.contains (.switch s)

/-- Whether strictness was asked for or refused last. -/
def lastStrict (items : List Item) : Option Bool :=
  items.reverse.findSome? fun
    | .switch .strict => some true
    | .switch .noStrict => some false
    | _ => none

def arguments (items : List Item) : List Text :=
  items.filterMap fun
    | .argument text => some text
    | _ => none

/-- How the value of `--max-address` is read, or what is wrong with it. -/
def readLimit (value : Text) : Except Text Int :=
  match HexLiteral.read? value with
  | some n => .ok n
  | none => .error ("'" ++ value ++ "' is not a hexadecimal address")

/-- What the command is called with. -/
structure Invocation where
  input : Text
  output : Option Text := none
  listing : Option Text := none
  symbols : Option Text := none
  strict : Option Bool := none
  maxAddress : Option Int := none
  echo : Bool := false
  verbose : Bool := false
  deriving DecidableEq

end TwoPass.CommandLine
