import TwoPass.Diagnostic.Location
import TwoPass.Symbol.Similar

/-
  The symbol table: labels with the address and place of their first definition, in the order
  of definition. A label that is defined again keeps its first entry.
-/

namespace TwoPass

structure Symbol where
  name : Text
  address : Int
  location : Option Location := none
  deriving DecidableEq

structure SymbolTable where
  symbols : List Symbol := []
  deriving DecidableEq

namespace SymbolTable

def find? (t : SymbolTable) (name : Text) : Option Symbol :=
  t.symbols.find? fun s => s.name = name

def contains (t : SymbolTable) (name : Text) : Bool := (t.find? name).isSome

/-- The table with the symbol in it, and the entry that stood in its way, if one did. -/
def define (t : SymbolTable) (s : Symbol) : SymbolTable × Option Symbol :=
  match t.find? s.name with
  | some existing => (t, some existing)
  | none => ({ symbols := t.symbols ++ [s] }, none)

def addressOf (t : SymbolTable) (name : Text) (default : Int) : Int :=
  match t.find? name with
  | some s => s.address
  | none => default

def size (t : SymbolTable) : Nat := t.symbols.length

def names (t : SymbolTable) : List Text := t.symbols.map Symbol.name

/-- Names and addresses, in the order of definition. -/
def addresses (t : SymbolTable) : List (Text × Int) :=
  t.symbols.map fun s => (s.name, s.address)

/-- Defined names that look like the given one. -/
def similar (t : SymbolTable) (name : Text) : List Text := Similar.closest name t.names

/-- The symbols defined one after the other. -/
def ofSymbols (symbols : List Symbol) : SymbolTable :=
  symbols.foldl (fun t s => (t.define s).1) {}

end SymbolTable

end TwoPass
