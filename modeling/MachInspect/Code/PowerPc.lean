-- SUMMARY: Instructions of PowerPC code.
import MachInspect.Code.Word

/-!
# PowerPC

The two low bits of a branch say whether it keeps a return address and whether its target is
absolute.
-/
namespace MachInspect.Code

open Text

namespace PowerPc

/-- Letters at the end of a branch's mnemonic, by its two low bits. -/
def endings : List (UInt32 × String) := [(0, ""), (1, "l"), (2, "a"), (3, "la")]

/-- The target of a branch with a distance in `width` bits; its two low bits are flags. -/
def target (width : Nat) (word : UInt32) (pc : UInt64) : UInt64 :=
  let distance := signedField (word &&& ~~~(3 : UInt32)) 0 width
  displaced (if field word 1 1 = 1 then 0 else pc) distance

/-- Branches that always go, and those that count down. -/
def plainBranches : List Pattern :=
  endings.flatMap fun (flags, ending) =>
    [.address 0xfc000003 (0x48000000 ||| flags) (fun _ => "b" ++ ending ++ " ") (target 26),
     .address 0xffff0003 (0x42000000 ||| flags) (fun _ => "bdnz" ++ ending ++ " ") (target 16),
     .address 0xffff0003 (0x42400000 ||| flags) (fun _ => "bdz" ++ ending ++ " ") (target 16)]

/-- What a conditional branch asks of a bit of a condition field. -/
def conditionText (word : UInt32) : String :=
  let names := if field word 24 1 = 1 then ["lt", "gt", "eq", "so"] else ["ge", "le", "ne", "ns"]
  names.getD (field word 16 2) ""

/-- Whether a conditional branch is expected to go. -/
def hintText (word : UInt32) : String :=
  match field word 21 2 with
  | 2 => "-"
  | 3 => "+"
  | _ => ""

/-- A conditional branch. The first condition field is not shown, nor is a target at distance
zero. -/
def conditionalText (ending : String) (word : UInt32) (pc : UInt64) : String :=
  let number := field word 18 3
  let conditionField := if number = 0 then [] else ["cr" ++ decimal number]
  let address := if field word 2 14 = 0 then [] else [numberText (target 16 word pc).toNat]
  let operands := conditionField ++ address
  "b" ++ conditionText word ++ ending ++ hintText word
    ++ (if operands.isEmpty then "" else " " ++ ", ".intercalate operands)

/-- Branches on one bit of a condition field. -/
def conditionalBranches : List Pattern :=
  endings.map fun (flags, ending) =>
    ⟨0xfe800003, 0x40800000 ||| flags, true, conditionalText ending⟩

end PowerPc

def powerPc : WordSet where
  order := .big
  skip := 1
  patterns :=
    [.exact 0x4e800020 "blr",
     .exact 0x4e800021 "blrl",
     .exact 0x4e800420 "bctr",
     .exact 0x4e800421 "bctrl",
     .exact 0x60000000 "nop",
     .plain 0xfc1f0000 0x38000000 fun word =>
       let value := (signedField word 0 16).toInt
       let sign := if value < 0 then "-" else ""
       "li r" ++ decimal (field word 21 5) ++ ", " ++ sign ++ numberText value.natAbs,
     .plain 0xfc1fffff 0x7c0802a6 fun word => "mflr r" ++ decimal (field word 21 5),
     .plain 0xfc1fffff 0x7c0803a6 fun word => "mtlr r" ++ decimal (field word 21 5)]
    ++ PowerPc.plainBranches ++ PowerPc.conditionalBranches

end MachInspect.Code
