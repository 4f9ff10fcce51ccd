-- SUMMARY: Instructions of 32-bit ARM code.
import MachInspect.Code.Word

/-!
# ARM

The top four bits of a word are a condition, which the mnemonic ends in.
-/
namespace MachInspect.Code

namespace Arm

/-- Conditions by number; the last one always holds. -/
def conditions : List String :=
  ["eq", "ne", "hs", "lo", "mi", "pl", "vs", "vc", "hi", "ls", "ge", "lt", "gt", "le", ""]

def registers : List String :=
  ["r0", "r1", "r2", "r3", "r4", "r5", "r6", "r7", "r8", "sb", "sl", "fp", "ip", "sp", "lr", "pc"]

/-- The register in the four bits from bit `low` on. -/
def register (word : UInt32) (low : Nat) : String := registers.getD (field word low 4) ""

/-- Branches count words from two instructions ahead. -/
def target (word : UInt32) (pc : UInt64) : UInt64 :=
  displaced (pc + 8) (signedField word 0 24 * 4) &&& 0xffffffff

/-- How many operands an operation has besides the last one. -/
inductive Shape where
  /-- A result and an operand. -/
  | full
  /-- An operand and no result. -/
  | compare
  /-- A result. -/
  | move
  deriving DecidableEq, Repr

/-- Operations on registers, by number. -/
def operations : List (String × Shape) :=
  [("and", .full), ("eor", .full), ("sub", .full), ("rsb", .full), ("add", .full), ("adc", .full),
   ("sbc", .full), ("rsc", .full), ("tst", .compare), ("teq", .compare), ("cmp", .compare),
   ("cmn", .compare), ("orr", .full), ("mov", .move), ("bic", .full), ("mvn", .move)]

/-- An operation whose last operand is `last`. The bits `form` say of what kind it is. -/
def operationPattern (condition : Nat × String) (number : Nat) (operation : String × Shape)
    (sets : Bool) (formMask form : UInt32) (last : UInt32 → String) : Pattern :=
  let value := UInt32.ofNat (condition.1 * 2 ^ 28 + number * 2 ^ 21 + (if sets then 2 ^ 20 else 0))
  let (name, shape) := operation
  let flag := if sets ∧ shape ≠ .compare then "s" else ""
  let mnemonic := name ++ flag ++ condition.2 ++ " "
  let text (word : UInt32) : String :=
    match shape with
    | .full => register word 12 ++ ", " ++ register word 16 ++ ", "
    | .compare => register word 16 ++ ", "
    | .move => register word 12 ++ ", "
  let unused : UInt32 := match shape with
    | .full => 0
    | .compare => 0xf000
    | .move => 0xf0000
  .plain (0xfff00000 ||| formMask ||| unused) (value ||| form) fun word =>
    mnemonic ++ text word ++ last word

/-- All operations on registers and small numbers. An operation without a result always sets the
flags. -/
def operationPatterns : List Pattern :=
  (conditions.mapIdx fun i name => (i, name)).flatMap fun condition =>
    (operations.mapIdx fun i operation => (i, operation)).flatMap fun (number, operation) =>
      (if operation.2 = .compare then [true] else [false, true]).flatMap fun sets =>
        [operationPattern condition number operation sets 0x02000ff0 0 fun word => register word 0,
         operationPattern condition number operation sets 0x02000f00 0x02000000 fun word =>
           "#" ++ numberText (field word 0 8)]

/-- Branches and calls under all conditions. -/
def branchPatterns : List Pattern :=
  (conditions.mapIdx fun i name => (UInt32.ofNat (i * 2 ^ 28), name)).flatMap
    fun (condition, name) =>
      [.address 0xff000000 (condition ||| 0x0a000000) (fun _ => "b" ++ name ++ " #") target,
       .address 0xff000000 (condition ||| 0x0b000000) (fun _ => "bl" ++ name ++ " #") target]

end Arm

def arm : WordSet where
  order := .little
  skip := 1
  patterns :=
    [.exact 0xe12fff1e "bx lr",
     .exact 0xe92d4800 "push \x7bfp, lr\x7d",
     .exact 0xe8bd8800 "pop \x7bfp, pc\x7d",
     .exact 0xe5910000 "ldr r0, [r1]",
     .exact 0xe59f0010 "ldr r0, [pc, #0x10]"]
    ++ Arm.branchPatterns ++ Arm.operationPatterns

end MachInspect.Code
