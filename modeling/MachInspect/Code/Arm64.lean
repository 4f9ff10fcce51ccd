-- SUMMARY: Instructions of 64-bit ARM code.
import MachInspect.Code.Word

/-!
# ARM64
-/
namespace MachInspect.Code

open Text

namespace Arm64

/-- Conditions by number. -/
def conditions : List String :=
  ["eq", "ne", "hs", "lo", "mi", "pl", "vs", "vc", "hi", "ls", "ge", "lt", "gt", "le", "al", "nv"]

/-- A register of 64 bits if `wide`, else of 32 bits; the last one is always zero. -/
def registerText (wide : Bool) (number : Nat) : String :=
  (if wide then "x" else "w") ++ (if number = 31 then "zr" else decimal number)

/-- The register in the low bits of a word, whose top bit tells its size. -/
def tested (word : UInt32) : String := registerText (field word 31 1 = 1) (field word 0 5)

/-- Distance in words, in the `width` bits from bit `low` on. -/
def target (low width : Nat) (word : UInt32) (pc : UInt64) : UInt64 :=
  displaced pc (signedField word low width * 4)

/-- The 21-bit immediate of an address computation, whose two low bits stand apart. -/
def immediate (word : UInt32) : Int64 :=
  let low : UInt64 := (word.toUInt64 >>> 29) &&& 0x3
  signedField word 5 19 * 4 + low.toInt64

/-- A branch on one bit of a register: the top bit of its number also tells the register's size. -/
def bitTest (mnemonic : String) (word : UInt32) : String :=
  mnemonic ++ tested word ++ ", #" ++ numberText (field word 31 1 * 32 + field word 19 5) ++ ", #"

/-- A load of what stands near the instruction. -/
def literalLoad (mnemonic : String) (wide : Bool) (word : UInt32) : String :=
  mnemonic ++ registerText wide (field word 0 5) ++ ", #"

end Arm64

open Arm64 in
def arm64 : WordSet where
  order := .little
  skip := 4
  patterns :=
    [.exact 0xd65f03c0 "ret",
     .exact 0xd503201f "nop",
     .address 0xfc000000 0x14000000 (fun _ => "b #") (target 0 26),
     .address 0xfc000000 0x94000000 (fun _ => "bl #") (target 0 26),
     .address 0xff000010 0x54000000
       (fun word => "b." ++ conditions.getD (field word 0 4) "" ++ " #") (target 5 19),
     .address 0x7f000000 0x34000000 (fun word => "cbz " ++ tested word ++ ", #") (target 5 19),
     .address 0x7f000000 0x35000000 (fun word => "cbnz " ++ tested word ++ ", #") (target 5 19),
     .address 0x7f000000 0x36000000 (bitTest "tbz ") (target 5 14),
     .address 0x7f000000 0x37000000 (bitTest "tbnz ") (target 5 14),
     .address 0x9f000000 0x90000000
       (fun word => "adrp " ++ registerText true (field word 0 5) ++ ", #")
       fun word pc => displaced (pc &&& ~~~(0xfff : UInt64)) (immediate word * 4096),
     .address 0x9f000000 0x10000000
       (fun word => "adr " ++ registerText true (field word 0 5) ++ ", #")
       fun word pc => displaced pc (immediate word),
     .address 0xff000000 0x18000000 (literalLoad "ldr " false) (target 5 19),
     .address 0xff000000 0x58000000 (literalLoad "ldr " true) (target 5 19),
     .address 0xff000000 0x98000000 (literalLoad "ldrsw " true) (target 5 19),
     .plain 0xffe00000 0xd2800000 fun word =>
       "mov " ++ registerText true (field word 0 5) ++ ", #" ++ numberText (field word 5 16),
     .plain 0xfffffc1f 0xd61f0000 fun word => "br " ++ registerText true (field word 5 5),
     .plain 0xfffffc1f 0xd63f0000 fun word => "blr " ++ registerText true (field word 5 5),
     .exact 0xf9400040 "ldr x0, [x2]",
     .exact 0xa9bf7bfd "stp x29, x30, [sp, #-0x10]!",
     .exact 0x910003fd "mov x29, sp"]

end MachInspect.Code
