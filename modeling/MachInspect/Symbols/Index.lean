-- SUMMARY: Symbols grouped by address, their extents, the relocations inside them, and look-up.
import MachInspect.Image.Basic

/-!
# The symbol index

Symbols that stand for an address in a section are sorted by address and grouped with their
aliases. A group extends to the next group of the same section, or else to the end of its section.
Each relocation is bound to the group whose extent holds all the bytes it patches; one that no
group holds is reported in a warning. A map back from symbols to groups is filled in along the way.
-/
namespace MachInspect

open Text

/-- Second halves of a pair, which say nothing on their own. -/
def Reloc.isPair (arch : Arch) (r : Reloc) : Bool :=
  match arch with
  | .x86 | .arm | .powerPc | .powerPc64 => r.kind == 1
  | .x86_64 | .arm64 | .other _ => false

/-- A relocation with the section that lists it. -/
structure BoundReloc where
  reloc : Reloc
  /-- Number of the section, from one. -/
  host : Nat
  /-- Position in the section's relocation list. -/
  position : Nat
  deriving DecidableEq, Repr

/-- The absolute address of the bytes a bound relocation patches. -/
def BoundReloc.address (image : Image) (b : BoundReloc) : UInt64 :=
  match image.sectionAt? (UInt32.ofNat b.host) with
  | some home => home.relocAddress b.reloc
  | none => b.reloc.address.toUInt64

/-- The symbols of one address and the bytes they stand for. -/
structure SymbolGroup where
  address : UInt64
  size : UInt64
  /-- Numbers of the symbols, in table order. -/
  aliases : List Nat
  relocs : List BoundReloc
  deriving DecidableEq, Repr

namespace SymbolGroup

/-- First address past the group. -/
def limit (g : SymbolGroup) : UInt64 := saturatingAdd g.address g.size

def contains (g : SymbolGroup) (address : UInt64) : Bool := g.address ≤ address && address < g.limit

/-- Whether all `width` bytes at `address` lie in the group. -/
def holds (g : SymbolGroup) (address : UInt64) (width : Nat) : Bool :=
  g.contains address && saturatingAdd address (UInt64.ofNat width) ≤ g.limit

end SymbolGroup

namespace Image

/-- The symbols that stand for an address in a section, with their numbers, by address. Aliases
stay in table order. -/
def addressedSymbols (image : Image) : List (Nat × Symbol) :=
  let numbered := image.symbols.mapIdx fun i s => (i, s)
  (numbered.filter fun (_, s) => s.isSectionDefined).mergeSort fun a b => a.2.value ≤ b.2.value

/-- Bytes from a symbol to the end of its section; none if the section does not exist or ends
before the symbol. -/
def bytesToSectionEnd (image : Image) (s : Symbol) : UInt64 :=
  match image.home? s with
  | some home => if s.value ≤ home.limit then home.limit - s.value else 0
  | none => 0

/-- The extent of a symbol, given the next symbol at a higher address. -/
def extent (image : Image) (s : Symbol) : Option (Nat × Symbol) → UInt64
  | some (_, next) => if next.sect = s.sect then next.value - s.value else image.bytesToSectionEnd s
  | none => image.bytesToSectionEnd s

/-- Groups symbols that are sorted by address. -/
def groupSorted (image : Image) : List (Nat × Symbol) → List SymbolGroup
  | [] => []
  | (index, s) :: rest =>
    let same := rest.takeWhile fun (_, t) => t.value == s.value
    let later := rest.dropWhile fun (_, t) => t.value == s.value
    { address := s.value
      size := image.extent s later.head?
      aliases := index :: same.map Prod.fst
      relocs := [] } :: image.groupSorted later
termination_by symbols => symbols.length
decreasing_by
  have h := (List.dropWhile_suffix (l := rest) fun x : Nat × Symbol => x.2.value == s.value)
  exact Nat.lt_succ_of_le h.length_le

/-- All relocations that are to be bound, in section order. -/
def bindable (image : Image) : List (Section × BoundReloc) :=
  image.sections.flatMap fun s =>
    (s.relocs.mapIdx fun position reloc => (s, (⟨reloc, s.index, position⟩ : BoundReloc))).filter
      fun (_, b) => !Reloc.isPair image.arch b.reloc

end Image

/-- An image with its symbol groups and bound relocations. -/
structure SymbolIndex where
  image : Image
  /-- One group per address, by address. -/
  groups : List SymbolGroup
  /-- For each symbol the position of its group, if it is in one. -/
  places : Array (Option Nat)
  /-- Relocations outside all groups. -/
  warnings : List String

namespace SymbolIndex

/-- Number of groups that start at or before `address`; groups are sorted, so they come first. -/
def startedBy (groups : List SymbolGroup) (address : UInt64) : Nat :=
  (groups.takeWhile fun g => g.address ≤ address).length

/-- Position of the last group that starts at or before `address`. -/
def candidate? (groups : List SymbolGroup) (address : UInt64) : Option Nat :=
  match startedBy groups address with
  | 0 => none
  | n + 1 => some n

/-- Position of the group that holds all the bytes a relocation patches. -/
def holder? (groups : List SymbolGroup) (home : Section) (b : BoundReloc) : Option Nat :=
  (candidate? groups (home.relocAddress b.reloc)).filter fun k =>
    match groups[k]? with
    | some g => g.holds (home.relocAddress b.reloc) b.reloc.width
    | none => false

/-- Says that a relocation of `home` is outside all groups. -/
def unboundWarning (home : Section) (b : BoundReloc) : String :=
  "relocation at " ++ hex (home.relocAddress b.reloc).toNat ++ " in " ++ home.label
    ++ " is not covered by any symbol"

/-- Enters the position of a group for each of its members. -/
def enter (places : Array (Option Nat)) (position : Nat) (g : SymbolGroup) : Array (Option Nat) :=
  g.aliases.foldl (fun places i => places.setIfInBounds i (some position)) places

/-- Enters all groups, at the positions from `first` on. -/
def enterAll (places : Array (Option Nat)) (groups : List SymbolGroup) (first : Nat) :
    Array (Option Nat) :=
  (groups.zipIdx first).foldl (fun places (g, position) => enter places position g) places

/-- Groups the symbols of an image and binds its relocations. -/
def build (image : Image) : SymbolIndex :=
  let groups := image.groupSorted image.addressedSymbols
  let placed := image.bindable.map fun (home, b) => (home, b, holder? groups home b)
  { image
    places := enterAll (.replicate image.symbols.length none) groups 0
    groups := groups.mapIdx fun k g =>
      { g with relocs := placed.filterMap fun (_, b, place) =>
          if place = some k then some b else none }
    warnings := placed.filterMap fun (home, b, place) =>
      if place = none then some (unboundWarning home b) else none }

/-- The group of a symbol, if the symbol stands for an address in a section. -/
def groupOf? (index : SymbolIndex) (symbol : Nat) : Option SymbolGroup := do
  index.groups[← (← index.places[symbol]?)]?

/-- The group whose extent covers `address`. A group at address zero covers nothing. -/
def covering? (index : SymbolIndex) (address : UInt64) : Option SymbolGroup := do
  let g ← index.groups[← candidate? index.groups address]?
  if g.address ≠ 0 ∧ g.contains address then some g else none

/-- What covers an address. -/
structure Hit where
  /-- Names of the aliases, each with the distance to the address. -/
  names : String
  base : UInt64
  deriving DecidableEq, Repr

/-- An alias with the distance of an address from it. -/
def placedName (name : String) (distance : Nat) : String :=
  if distance = 0 then name else name ++ "+" ++ hex distance

/-- The names of the group that covers `address`. -/
def lookup (index : SymbolIndex) (address : UInt64) : Option Hit := do
  let g ← index.covering? address
  let symbols := g.aliases.filterMap fun i => index.image.symbols[i]?
  let names := symbols.map fun s => placedName s.name (address - g.address).toNat
  return ⟨"|".intercalate names, g.address⟩

/-- The names that cover an address, or else the address itself if a text is required. -/
def addressName (index : SymbolIndex) (address : UInt64) (required : Bool) : String :=
  match index.lookup address with
  | some hit => hit.names
  | none => if required then hex address.toNat else ""

/-- The first symbol of a name. -/
def named? (index : SymbolIndex) (name : String) : Option Nat :=
  index.image.symbols.findIdx? fun s => s.name == name

end SymbolIndex

end MachInspect
