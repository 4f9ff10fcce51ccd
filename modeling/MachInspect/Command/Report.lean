-- SUMMARY: What commands print.
import MachInspect.Command.Arguments
import MachInspect.Image.Outline
import MachInspect.Image.Reader
import MachInspect.Session
import MachInspect.Symbols.Listing

/-!
# Reports

A command prints lines to standard output and warnings to standard error. A command that fails has
not printed anything.
-/
namespace MachInspect.Command

open Text View

/-- Lines for standard output and for standard error. -/
structure Report where
  output : List String
  warnings : List String
  /-- The program stops at a page that overflows, and prints nothing. -/
  overflows : Bool
  deriving DecidableEq, Repr

namespace Report

/-- A report without warnings. -/
def ofLines (output : List String) : Report := ⟨output, [], false⟩

/-- Every line ends with a line break. -/
def outputText (r : Report) : String := String.join (r.output.map (· ++ "\n"))

def warningText (r : Report) : String :=
  String.join (r.warnings.map fun w => "warning: " ++ w ++ "\n")

end Report

/-- Replaces line breaks. -/
def withBreaks (separator text : String) : String :=
  String.ofList (text.toList.flatMap fun c => if c = '\n' then separator.toList else [c])

/-- Spaces. -/
def blanks (n : Nat) : String := String.ofList (List.replicate n ' ')

-- ---------------------------------------------------------------------------
-- Listings
-- ---------------------------------------------------------------------------

mutual

/-- An outline, indented by depth. Values of several lines continue below the first. -/
def outlineLines (depth : Nat) : Outline → List String
  | .node label value children =>
    let indent := blanks (2 * depth)
    let first :=
      if value = "" then indent ++ label
      else
        let continuation := "\n" ++ indent ++ "  " ++ blanks label.utf8ByteSize
        indent ++ label ++ ": " ++ withBreaks continuation value
    first :: outlinesLines (depth + 1) children

/-- Outlines one after the other. -/
def outlinesLines (depth : Nat) : List Outline → List String
  | [] => []
  | node :: rest => outlineLines depth node ++ outlinesLines depth rest

end

/-- The summary of an image, and all of its header and load commands. -/
def infoLines (image : Image) (hasDebug : Bool) : List String :=
  [image.description,
   "  Architecture: " ++ image.arch.name,
   "  Sections: " ++ decimal image.sections.length,
   "  Symbols: " ++ decimal image.symbols.length,
   "  DWARF: " ++ (if hasDebug then "yes" else "no"),
   ""] ++ outlinesLines 0 image.outline

def symbolLine (row : SymbolRow) : String :=
  " ".intercalate
    [padLeft 5 (decimal row.index), row.letter.toString, padRight 18 row.value,
     padRight 24 row.home, withBreaks " " row.kind, "[" ++ withBreaks " " row.desc ++ "]",
     row.name]

def lookupLine (index : SymbolIndex) (address : UInt64) : String :=
  match index.lookup address with
  | some hit =>
    hex address.toNat ++ ": " ++ hit.names ++ " (base " ++ hex hit.base.toNat ++ ")"
  | none => hex address.toNat ++ ": no symbol"

def tableLines (table : List RelocColumns) : List String :=
  "\t".intercalate RelocColumns.header
    :: table.map fun c => "\t".intercalate (c.toList.map (withBreaks " "))

-- ---------------------------------------------------------------------------
-- Pages
-- ---------------------------------------------------------------------------

def relocLine (r : RelocRow) : String :=
  let link := match r.anchor? with
    | some anchor => "  " ++ anchor.text
    | none => ""
  "      reloc " ++ addressText r.address ++ " " ++ r.kind ++ " " ++ r.targetText ++ link

/-- A row and the relocations in it; highlighted rows are marked. -/
def rowLines (row : Row) : List String :=
  let mark := if row.focused then "> " else "  "
  (mark ++ addressText row.address ++ "  " ++ padRight 24 (spacedHex row.bytes) ++ "  " ++ row.text)
    :: row.relocs.map relocLine

def fieldLine (f : Frame.Field) : String :=
  "      " ++ addressText f.address ++ "  " ++ padRight 24 (spacedHex f.bytes) ++ "  " ++ f.name
    ++ ": " ++ withBreaks " | " f.value

def recordLines (r : Frame.Record) : List String :=
  let failure := match r.error with
    | some e => ["      error: " ++ e.message]
    | none => []
  ("    " ++ r.title ++ " @ " ++ hex r.address.toNat) :: (r.fields.map fieldLine ++ failure)

def groupLines (g : Frame.Group) : List String :=
  ("  " ++ g.title) :: (g.cie :: g.fdes).flatMap recordLines

def pageLines : Page → List String
  | .rows view => (view.title ++ " [" ++ view.semantic.name ++ "]") :: view.rows.flatMap rowLines
  | .frames listing => listing.title :: listing.groups.flatMap groupLines

def pageReport (page : Page) : Report := ⟨pageLines page, page.warnings, page.overflows⟩

-- ---------------------------------------------------------------------------
-- Requests
-- ---------------------------------------------------------------------------

/-- An address in decimal, or in hexadecimal after `0x`. -/
def parseAddress (text : String) : Except Error UInt64 :=
  let cs := text.toList
  let value? := match cs with
    | '0' :: 'x' :: digits | '0' :: 'X' :: digits => unsigned? 16 (2 ^ 64) digits
    | _ => unsigned? 10 (2 ^ 64) cs
  match value? with
  | some value => .ok (UInt64.ofNat value)
  | none => .error (.misuse (.address text))

/-- The number of the section that a command names. -/
def sectionNumber (spec : String) : Inspect UInt64 := do
  match (← get).findSection? spec with
  | some number => return UInt64.ofNat number
  | none => throw (.misuse (.noSection spec))

/-- The number of the symbol that a command names. -/
def symbolNumber (spec : String) : Inspect UInt64 := do
  match (← get).findSymbol? spec with
  | some number => return UInt64.ofNat number
  | none => throw (.misuse (.noSymbol spec))

/-- The relocation table of a section, under its name. -/
def sectionTableLines (number : UInt64) : Inspect (List String) := do
  let table ← Inspect.sectionTable number
  let home ← Inspect.sectionAt number
  return home.label :: tableLines table ++ [""]

/-- The relocation tables of all sections that have relocations. -/
def allTableLines : Inspect (List String) := do
  let busy := (← get).image.sections.filter fun s => !s.relocs.isEmpty
  return (← busy.mapM fun s => sectionTableLines (UInt64.ofNat s.index)).flatten

def relocReport : RelocScope → Inspect Report
  | .everything => return .ofLines (← allTableLines)
  | .ofSection spec => do return .ofLines (← sectionTableLines (← sectionNumber spec))
  | .ofSymbol spec => do
    return .ofLines (tableLines (← Inspect.symbolTable (← symbolNumber spec)))

/-- Does what a command line asks for. -/
def perform : Request → Inspect Report
  | .info => do
    let debug? ← Inspect.debugInfo
    return .ofLines (infoLines (← get).image debug?.isSome)
  | .sections => return .ofLines (← get).image.sectionLines
  | .symbols => return .ofLines ((← get).image.symbolRows.map symbolLine)
  | .lookup text => do
    let address ← parseAddress text
    return .ofLines [lookupLine (← get).index address]
  | .showSection spec semantic => do
    return pageReport (← Inspect.sectionPage (← sectionNumber spec) semantic)
  | .showSymbol spec semantic => do
    return pageReport (← Inspect.symbolPage (← symbolNumber spec) semantic)
  | .relocs scope => relocReport scope
  | .ehFrame => do
    match (← get).findSection? "__TEXT,__eh_frame" with
    | some number =>
      return pageReport (← Inspect.sectionPage (UInt64.ofNat number) (some .ehFrame))
    | none => throw (.misuse .noFrameSection)
  | .openAnchor anchor => do return pageReport (← Inspect.openAnchor anchor)

/-- Runs a command line on the contents of its file, on a machine with the CPU `host`. Warnings
about the image come last. -/
def run (host : Arch) (invocation : Invocation) (contents : Except Error Bytes) :
    Except Error Report := do
  let bytes ← contents
  let image ← (Image.read host bytes).mapError Error.malformed
  let session := Session.start image ⟨host, invocation.loadDebug, invocation.forceLongDouble⟩
  let (result, _) := (perform invocation.request).run.run session
  let report ← result
  return { report with warnings := report.warnings ++ session.warnings }

end MachInspect.Command
