import TwoPass.Number.Hex
import TwoPass.Symbol.Table

/-
  The assembly listing: each source line with its address and code, then the symbol table. The
  symbol file holds the table alone.
-/

namespace TwoPass

structure ListingEntry where
  line : Int
  /-- Remarks have no address. -/
  address : Option Int
  code : Text := []
  text : Text := []
  deriving DecidableEq

def ListingEntry.format (e : ListingEntry) : Text :=
  (match e.address with
    | some a => Hex.signed 4 a
    | none => "    ") ++
    "  " ++ e.code.rightpad 12 ' ' ++ "  " ++ (Text.ofInt e.line).leftpad 4 ' ' ++ "  " ++ e.text

namespace Listing

def symbolLine (s : Symbol) : Text :=
  s.name.rightpad 20 ' ' ++ " = " ++ Hex.signed 4 s.address

def render (entries : List ListingEntry) (symbols : SymbolTable) : Text :=
  let lines : List Text :=
    ["SIC Assembler Listing".toList, List.replicate 60 '=', [],
      "Addr  Code          Line  Source".toList, List.replicate 60 '-'] ++
    entries.map ListingEntry.format ++
    [[], "Symbol Table".toList, List.replicate 30 '-'] ++ symbols.symbols.map symbolLine
  lines.flatMap (· ++ ['\n'])

def symbolFileLine (s : Symbol) : Text :=
  s.name ++ " " ++ Hex.signed 4 s.address ++ ['\n']

/-- The symbol file: names and addresses in the order of definition. -/
def symbolFile (symbols : SymbolTable) : Text :=
  "# Symbol table\n# Generated by sicasm\n" ++ symbols.symbols.flatMap symbolFileLine

end Listing

end TwoPass
