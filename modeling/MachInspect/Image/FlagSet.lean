-- SUMMARY: Flag words taken apart into named entries, one entry a line.
import MachInspect.Image.Names

/-!
# Flag sets

A flag word is shown as one entry per part: the bits of the part, and what they are called. The
parts are peeled off the word one after another, so no bit is shown twice, and what no rule claims
is shown last.
-/
namespace MachInspect

open Text

/-- A part of a flag word. -/
structure FlagEntry where
  bits : Nat
  /-- What the bits are called; shown in parentheses. -/
  label : Option String
  deriving DecidableEq, Repr

namespace FlagEntry

def named (bits : Nat) (name : Option String) : FlagEntry := ⟨bits, some (name.getD "?")⟩

/-- `0x0e (N_SECT)`, with at least `digits` digits. -/
def text (digits : Nat) (e : FlagEntry) : String :=
  hexWide digits e.bits ++
    match e.label with
    | some label => " (" ++ label ++ ")"
    | none => ""

/-- One entry a line. -/
def lines (digits : Nat) (entries : List FlagEntry) : String :=
  "\n".intercalate (entries.map (text digits))

end FlagEntry

/-- A flag word from which parts have been taken. -/
structure Peeling where
  rest : UInt32
  entries : List FlagEntry
  deriving DecidableEq, Repr

namespace Peeling

def start (flags : UInt32) : Peeling := ⟨flags, []⟩

/-- Takes the bits of `mask`, even if none is set. -/
def field (mask : UInt32) (label : UInt32 → String) (p : Peeling) : Peeling :=
  let bits := p.rest &&& mask
  ⟨p.rest &&& ~~~mask, p.entries ++ [⟨bits.toNat, some (label bits)⟩]⟩

/-- Takes the one bit `mask`, if it is set. -/
def flag (mask : UInt32) (label : String) (p : Peeling) : Peeling :=
  if p.rest &&& mask ≠ 0 then
    ⟨p.rest &&& ~~~mask, p.entries ++ [⟨mask.toNat, some label⟩]⟩
  else p

/-- Takes a step only if it applies. -/
def when (applies : Bool) (step : Peeling → Peeling) (p : Peeling) : Peeling :=
  if applies then step p else p

/-- All entries, with one for the bits that are left. -/
def finish (p : Peeling) : List FlagEntry :=
  if p.rest ≠ 0 then p.entries ++ [⟨p.rest.toNat, some "??"⟩] else p.entries

end Peeling

namespace FlagEntry

/-- One entry per set bit, by a table of names per bit. -/
def perBit (names : List String) (flags : UInt32) : List FlagEntry :=
  let set := (List.range 32).filter fun bit => flags.toNat.testBit bit
  if set.isEmpty then [⟨0, none⟩] else set.map fun bit => named (2 ^ bit) names[bit]?

def fileFlags (flags : UInt32) : List FlagEntry := perBit Names.fileFlags flags

def segmentFlags (flags : UInt32) : List FlagEntry := perBit Names.segmentFlags flags

/-- The capability bit of a CPU subtype that says the libraries are 64-bit. -/
def lib64 : UInt32 := 0x80000000

/-- A CPU subtype. The 32-bit CPUs have no capability bit. -/
def cpuSubtype (cpuType subtype : UInt32) : List FlagEntry :=
  let arch := Arch.ofCpuType cpuType
  let hasCapability := arch ≠ .x86 ∧ arch ≠ .arm ∧ arch ≠ .powerPc
  let name (sub : UInt32) := (Names.find? (Names.cpuSubtypes arch) sub).getD "?"
  ((Peeling.start subtype).when hasCapability (.flag lib64 "CPU_SUBTYPE_LIB64")
    |>.field 0xffffffff name).entries

/-- A section's type and attributes. -/
def sectionFlags (flags : UInt32) : List FlagEntry :=
  let typed := (Peeling.start flags).field 0xff fun t => (Names.find? Names.sectionTypes t).getD "?"
  (Names.sectionAttributes.foldl (fun p (bit, name) => p.flag bit name) typed).finish

/-- A symbol's type byte. A debugger entry is one number. -/
def symbolType (kind : UInt8) : List FlagEntry :=
  if kind &&& 0xe0 ≠ 0 then [⟨kind.toNat, some ((Names.find? Names.stabs kind).getD "N_STAB")⟩]
  else
    ((Peeling.start kind.toUInt32).field 0x0e
        (fun t => (Names.find? Names.symbolTypes t.toUInt8).getD "?")
      |>.flag 0x10 "N_PEXT" |>.flag 0x01 "N_EXT").entries

end FlagEntry

end MachInspect
