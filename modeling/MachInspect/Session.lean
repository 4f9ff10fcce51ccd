-- SUMMARY: One image under inspection: requests, their answers, and what is remembered between them.
import MachInspect.Debug.VariableType
import MachInspect.Frame.Section
import MachInspect.Reloc.Table
import MachInspect.View.Symbol

/-!
# Sessions

A session holds an image with its symbol index. Debug information is only read when a declared type
is asked for. Pages, relocation tables and types are remembered once they have been made; failures
are not. Nothing that is remembered depends on earlier requests, so the answer to a request does
not either, except for the report of whether debug information has been read.
-/
namespace MachInspect

open Text View Value

structure Options where
  /-- The CPU that the program runs on. -/
  host : Arch
  /-- Read debug information when it is needed. -/
  loadDebug : Bool := true
  /-- Decode `long double` also for CPUs that are not the host's. -/
  forceLongDouble : Bool := false
  deriving DecidableEq, Repr

/-- A section or symbol, decoded. -/
inductive Page where
  | rows (view : RowView)
  | frames (listing : Frame.Listing)

namespace Page

def title : Page → String
  | rows view => view.title
  | frames listing => listing.title

def warnings : Page → List String
  | rows view => view.warnings
  | frames listing => listing.warnings

/-- The program stops on the way to the page. -/
def overflows : Page → Bool
  | rows view => view.overflows
  | frames _ => false

/-- Highlights a range. Call-frame listings have no highlighting. -/
def focus (f : Focus) : Page → Page
  | rows view => rows (view.focus f)
  | frames listing => frames listing

end Page

/-- What a remembered page was made from. -/
inductive PageKey where
  | ofSection (number : UInt64) (semantic : Semantic)
  | ofSymbol (number : UInt64) (semantic : Semantic)
  deriving DecidableEq, Repr

structure Session where
  index : SymbolIndex
  options : Options
  /-- The debug information, once it has been asked for. -/
  debug : Option (Option Debug.Info)
  /-- Declared types of variables asked for so far. -/
  types : List (String × Option ValueType)
  pages : List (PageKey × Page)
  /-- Relocation tables of symbols asked for so far. -/
  tables : List (UInt64 × List RelocColumns)

/-- A request to a session: it may fail, and it may add to what the session remembers. -/
abbrev Inspect (α : Type) := ExceptT Error (StateM Session) α

namespace Session

/-- A session in which nothing has been asked for. -/
def start (image : Image) (options : Options) : Session where
  index := SymbolIndex.build image
  options
  debug := none
  types := []
  pages := []
  tables := []

def image (s : Session) : Image := s.index.image

def context (s : Session) : Context := ⟨s.index, s.options.host, s.options.forceLongDouble⟩

/-- Relocations that no symbol covers. -/
def warnings (s : Session) : List String := s.index.warnings

/-- Whether the debug information has been asked for. -/
def debugLoaded (s : Session) : Bool := s.debug.isSome

-- ---------------------------------------------------------------------------
-- Finding things
-- ---------------------------------------------------------------------------

/-- Number of the first section that contains an address. -/
def sectionContaining? (s : Session) (address : UInt64) : Option Nat :=
  (s.image.sections.find? fun t => t.contains address).map Section.index

/-- Number of a section given by its number or as `segment,name`. -/
def findSection? (s : Session) (spec : String) : Option Nat :=
  match word? spec.toList with
  | some number => (s.image.sectionAt? number.toUInt32).map Section.index
  | none => do
    let (segment, name) ← Anchor.splitOnce? ',' spec.toList
    let found ← s.image.sectionNamed? (String.ofList segment) (String.ofList name)
    return found.index

/-- Number of a symbol given by its number or its name. -/
def findSymbol? (s : Session) (spec : String) : Option Nat :=
  match word? spec.toList with
  | some number =>
    if number.toNat < s.image.symbols.length then some number.toNat else s.index.named? spec
  | none => s.index.named? spec

end Session

-- ---------------------------------------------------------------------------
-- Debug information
-- ---------------------------------------------------------------------------

namespace Inspect

/-- The debug information, if it is wanted and usable. It is read when first asked for. -/
def debugInfo : Inspect (Option Debug.Info) := do
  let s ← get
  if s.options.loadDebug then
    match s.debug with
    | some info? => return info?
    | none =>
      let info? := Debug.Info.of? s.image
      set { s with debug := some info? }
      return info?
  else return none

/-- The declared type of the variable behind a symbol name. -/
def variableType (info : Debug.Info) (name : String) : Inspect (Option ValueType) := do
  match (← get).types.lookup name with
  | some type? => return type?
  | none =>
    let type? ← info.variableType name
    modify fun s => { s with types := (name, type?) :: s.types }
    return type?

/-- What the debug information says of the variable behind a symbol name. -/
def declaration (name : String) : Option Debug.Info → Inspect Declaration
  | none => return .unavailable
  | some info => do
    try
      match ← variableType info name with
      | some type => pure (.found type)
      | none => pure .absent
    catch e => pure (.broken e)

-- ---------------------------------------------------------------------------
-- Pages
-- ---------------------------------------------------------------------------

/-- The section with a number, from one. -/
def sectionAt (number : UInt64) : Inspect Section := do
  match (← get).image.sectionAt? number.toUInt32 with
  | some home => return home
  | none => throw (.outOfRange .sections number)

/-- The remembered page, or else the one that `make` gives, which is then remembered. -/
def remembered (key : PageKey) (make : Inspect Page) : Inspect Page := do
  match (← get).pages.lookup key with
  | some page => return page
  | none =>
    let page ← make
    modify fun s => { s with pages := (key, page) :: s.pages }
    return page

/-- The page of a section. Unless a semantic type is asked for, it is guessed. -/
def sectionPage (number : UInt64) (semantic? : Option Semantic) : Inspect Page := do
  let home ← sectionAt number
  let semantic := semantic?.getD (Semantic.ofSection (← get).image home)
  remembered (.ofSection number semantic) do
    let s ← get
    match semantic with
    | .ehFrame => return .frames (Frame.Listing.of s.index home)
    | .declared =>
      discard debugInfo
      return .rows (sectionView s.context home .declared)
    | other => return .rows (sectionView s.context home other)

/-- The semantic type of a symbol's page. Symbols are never shown as call-frame records. -/
def symbolSemantic (image : Image) (number : UInt64) (semantic? : Option Semantic) : Semantic :=
  match semantic? <|> Semantic.ofSymbol? image number.toNat with
  | some .ehFrame | none => .data
  | some other => other

/-- The page of a symbol. Unless a semantic type is asked for, it is that of its section. -/
def symbolPage (number : UInt64) (semantic? : Option Semantic) : Inspect Page := do
  let semantic := symbolSemantic (← get).image number semantic?
  remembered (.ofSymbol number semantic) do
    let info? ← if semantic = .declared then debugInfo else pure none
    let ctx := (← get).context
    -- Only a symbol that can be shown has its type looked up.
    let place ← symbolPlace ctx number
    let declaration ←
      if semantic = .declared then declaration place.symbol.name info? else pure .unavailable
    return .rows (← symbolView ctx number semantic declaration)

/-- The page that an anchor leads to, with the target highlighted. -/
def openAnchor : Anchor → Inspect Page
  | .symbol index addend size => do
    match (← get).image.symbol? index.toUInt32 with
    | none => throw (.outOfRange .symbols index)
    | some symbol =>
      return (← symbolPage index none).focus ⟨displaced symbol.value addend, size⟩
  | .address address size => do
    match (← get).sectionContaining? address with
    | none => throw (.outOfRange .addresses address)
    | some number =>
      return (← sectionPage (UInt64.ofNat number) none).focus ⟨address, size⟩

-- ---------------------------------------------------------------------------
-- Relocation tables
-- ---------------------------------------------------------------------------

/-- The relocation table of a section. -/
def sectionTable (number : UInt64) : Inspect (List RelocColumns) := do
  let home ← sectionAt number
  return (← get).image.sectionRelocs home

/-- The relocations bound to the group of a symbol. -/
def symbolTable (number : UInt64) : Inspect (List RelocColumns) := do
  let s ← get
  match s.tables.lookup number with
  | some table => return table
  | none =>
    match s.index.groupOf? number.toNat with
    | none => throw (.misuse (.symbolWithoutExtent number))
    | some g =>
      let table := s.image.groupRelocs g
      set { s with tables := (number, table) :: s.tables }
      return table

end Inspect

end MachInspect
