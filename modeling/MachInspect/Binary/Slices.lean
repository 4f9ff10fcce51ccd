-- SUMMARY: Parts of bytes, with what becomes of parts that are not there left open.
import MachInspect.Binary.ByteOrder

/-!
# Parts of bytes

Values are read from parts of the bytes that hold them. How parts are taken is a parameter of the
reading, so that the same rules can also be followed with parts that are refused.
-/
namespace MachInspect

/-- How parts are taken out of bytes, which may fail. -/
structure Slices (m : Type → Type) where
  /-- The `len` bytes at `start`. -/
  part (data : Bytes) (start len : Nat) : m Bytes
  /-- All pieces of exactly `size` bytes, what is left over dropped. -/
  chunks (size : Nat) (data : Bytes) : m (List Bytes)

/-- All pieces of exactly `size` bytes, what is left over dropped. -/
def fullChunks (size : Nat) (data : Bytes) : List Bytes :=
  if size = 0 ∨ data.length < size then []
  else data.take size :: fullChunks size (data.drop size)
termination_by data.length
decreasing_by simp only [List.length_drop]; omega

/-- Parts go as far as the bytes do. -/
def Slices.within : Slices Id where
  part data start len := (data.drop start).take len
  chunks := fullChunks

end MachInspect
