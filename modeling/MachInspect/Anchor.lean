-- SUMMARY: Links to relocation targets, written and read.
import MachInspect.Error
import MachInspect.Reloc.Target
import MachInspect.Text.Numeral

/-!
# Anchors

A relocation target is shown as a link, `/symbol/N?addend=A&size=S` or `/address/N?size=S`, with all
numbers in decimal. Reading takes the parts of the query in any order, skips unknown ones, and
takes zero for those that are missing.
-/
namespace MachInspect

open Text

/-- A place to open, with the range to highlight. -/
inductive Anchor where
  | symbol (index : UInt64) (addend : Int64) (size : UInt64)
  | address (address : UInt64) (size : UInt64)
  deriving DecidableEq, Repr

namespace Anchor

/-- The link to a relocation target, if it has one. -/
def ofTarget? : RelocTarget → Option Anchor
  | .symbol index addend size => some (symbol (UInt64.ofNat index) addend size)
  | .address base addend size => some (address (displaced base addend) size)
  | .none => none
  | .unresolved _ => none

def text : Anchor → String
  | symbol index addend size =>
    "/symbol/" ++ decimal index.toNat ++ "?addend=" ++ signedDecimal addend.toInt ++ "&size="
      ++ decimal size.toNat
  | address base size => "/address/" ++ decimal base.toNat ++ "?size=" ++ decimal size.toNat

/-- The parts before and after the first `sep`, if there is one. -/
def splitOnce? (sep : Char) (cs : List Char) : Option (List Char × List Char) :=
  let before := cs.takeWhile (· ≠ sep)
  if before.length < cs.length then some (before, cs.drop (before.length + 1)) else none

/-- The parts between separators. -/
def splitAll (sep : Char) (cs : List Char) : List (List Char) :=
  let before := cs.takeWhile (· ≠ sep)
  if before.length < cs.length then before :: splitAll sep (cs.drop (before.length + 1))
  else [before]
termination_by cs.length
decreasing_by simp only [List.length_drop]; omega

/-- The value of the first part of a query with the given key. -/
def queryValue? (query : List Char) (key : String) : Option (List Char) :=
  ((splitAll '&' query).filterMap (splitOnce? '=')).lookup key.toList

/-- Reads a query value with `read`; a missing one is `missing`. -/
def queryNumber? {α : Type} (query : List Char) (key : String) (missing : α)
    (read : List Char → Option α) : Option α :=
  match queryValue? query key with
  | some value => read value
  | none => some missing

/-- What follows `beginning`. -/
def after? (beginning : String) (cs : List Char) : Option (List Char) :=
  if beginning.toList.isPrefixOf cs then some (cs.drop beginning.length) else none

def parse? (cs : List Char) : Option Anchor := do
  let (path, query) := (splitOnce? '?' cs).getD (cs, [])
  match after? "/symbol/" path, after? "/address/" path with
  | some index, _ =>
    return symbol (← word? index) (← queryNumber? query "addend" 0 signedWord?)
      (← queryNumber? query "size" 0 word?)
  | none, some base => return address (← word? base) (← queryNumber? query "size" 0 word?)
  | none, none => none

/-- Reads an anchor. -/
def parse (s : String) : Except Error Anchor :=
  match parse? s.toList with
  | some anchor => .ok anchor
  | none => .error (.misuse (.anchor s))

end Anchor

end MachInspect
