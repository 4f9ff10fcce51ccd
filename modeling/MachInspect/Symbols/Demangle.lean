-- SUMMARY: Readable paths of mangled Rust symbol names.
import MachInspect.Symbols.Demangle.Elements
import MachInspect.Symbols.Demangle.Paths

/-!
# Demangling

Rust compilers write the path of an item into its symbol name. Two forms are in use. The older one
is a row of elements between `_ZN` and `E`; the newer one starts with `_R` and nests paths. Linkers
and assemblers may put an underscore in front, and later tools append to the name.
-/
namespace MachInspect.Demangle

/-- What follows the first occurrence of `pattern`, and what precedes it. -/
def splitAt? (pattern : List Char) : List Char → Option (List Char × List Char)
  | [] => if pattern.isEmpty then some ([], []) else none
  | c :: rest =>
    if pattern.isPrefixOf (c :: rest) then some ([], (c :: rest).drop pattern.length)
    else (splitAt? pattern rest).map fun (before, after) => (c :: before, after)

/-- Cuts the mark that link-time optimisation puts behind a name. -/
def withoutImportMark (name : List Char) : List Char :=
  let isMark (c : Char) := c.isDigit || ('A' ≤ c && c ≤ 'F') || c == '@'
  match splitAt? ".llvm.".toList name with
  | some (before, after) => if after.all isMark then before else name
  | none => name

/-- The first of the given beginnings that `name` has, cut off. -/
def stripAny? (beginnings : List String) (name : List Char) : Option (List Char) :=
  beginnings.findSome? fun b =>
    if b.toList.isPrefixOf name then some (name.drop b.length) else none

/-- What later tools may append: a dot and printable ASCII without spaces. -/
def isAppendix : List Char → Bool
  | [] => true
  | cs => cs.head? == some '.' && cs.all fun c => 0x21 ≤ c.toNat && c.toNat ≤ 0x7e

/-- The path in a mangled name. -/
def demangle? (name : String) : Option String := do
  let cs := withoutImportMark name.toList
  let (path, tail) ← (stripAny? ["_ZN", "ZN", "__ZN"] cs).bind flat?
    <|> (stripAny? ["_R", "R", "__R"] cs).bind nested?
  if isAppendix tail then some (path ++ String.ofList tail) else none

/-- A name in listings: `raw (path)`, or just `raw`. -/
def listed (name : String) : String :=
  match demangle? name with
  | some path => name ++ " (" ++ path ++ ")"
  | none => name

end MachInspect.Demangle
