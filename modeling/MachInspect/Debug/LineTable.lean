-- SUMMARY: Headers of line number tables.
import MachInspect.Debug.Attribute

/-!
# Line number tables

A unit may say where its line number table starts. Nothing here depends on the lines, but a unit
is sound only if the header of its table is: the limits in it must not be zero, and its lists of
directories and files must end within it.
-/
namespace MachInspect.Debug.LineTable

/-- A number of `width` bytes that must not be zero. -/
def positive (e : Encoding) (width : Nat) : Scan Nat := do
  let n ← e.number width
  if n = 0 then throw .badLineTable else return n

-- ---------------------------------------------------------------------------
-- Lists of directories and files
-- ---------------------------------------------------------------------------

/-- Named items up to an empty name; `details` follow each name. -/
def namedItems (details : Scan Unit) : (fuel : Nat) → Scan Unit
  | 0 => throw .unexpectedEnd
  | fuel + 1 => do
    let name ← Scan.terminated
    if name.isEmpty then return ()
    else
      details
      namedItems details fuel

/-- Directory, time and size of a file. -/
def fileDetails : Scan Unit := discard (Scan.times Scan.uleb 3)

/-- Forms that the items of a list may be stored in. -/
def itemForms : List Nat :=
  [0x03, 0x04, 0x05, 0x06, 0x07, 0x08, 0x09, 0x0a, 0x0b, 0x0c, 0x0d, 0x0e, 0x0f, 0x17, 0x1a, 0x1d,
   0x1e, 0x1f, 0x25, 0x26, 0x27, 0x28, 0x1f02, 0x1f21]

/-- One field of an item. -/
def itemField (e : Encoding) (form : Nat) : Scan Unit :=
  if itemForms.contains form then discard (e.scanForm ⟨0, form, 0⟩ true form)
  else throw .unknownForm

/-- What a field of an item holds, and its form. -/
def fieldFormat : Scan (Nat × Nat) := do return (← Scan.uleb, ← Scan.uleb16)

/-- The content of a field that is a path. -/
def pathContent : Nat := 1

/-- Items whose fields are described in front of them. Each item has one path. -/
def describedItems (e : Encoding) : Scan Unit := do
  let fields ← Scan.times fieldFormat (← e.number 1)
  if fields.countP (fun (content, _) => content == pathContent) ≠ 1 then throw .badLineTable
  let count ← Scan.uleb
  let item : Scan Unit := fields.forM fun (_, form) => itemField e form
  -- An item takes at least one byte, so more of them cannot be there.
  discard (Scan.times item (min count ((← get).length + 1)))

/-- The directories and then the files. -/
def directoriesAndFiles (e : Encoding) : Scan Unit := do
  if e.version ≤ 4 then
    namedItems (pure ()) ((← get).length + 1)
    namedItems fileDetails ((← get).length + 1)
  else
    describedItems e
    describedItems e

-- ---------------------------------------------------------------------------
-- Headers
-- ---------------------------------------------------------------------------

/-- What follows the length of the header: the least instruction length and, from version 4 on,
the most operations an instruction has; then the default state, the range of line numbers, the
operand counts of the standard operations, and the lists. -/
def limits (e : Encoding) : Scan Unit := do
  discard (positive e 1)
  if 4 ≤ e.version then discard (positive e 1)
  discard (Scan.bytes 2)
  discard (positive e 1)
  let operations ← positive e 1
  discard (Scan.bytes (operations - 1))
  directoriesAndFiles e

/-- What follows the length of the table. From version 5 on a table has its own size of addresses,
and it must not use segments. -/
def body (e : Encoding) : Scan Unit := do
  let version ← e.number 2
  if version < 2 ∨ 5 < version then throw .badLineTable
  let addressSize ←
    if version < 5 then pure e.addressSize
    else do
      let size ← Scan.addressSize
      if (← e.number 1) ≠ 0 then throw .badLineTable
      pure size
  Scan.limited (← e.number e.offsetSize) (limits { e with version, addressSize })

/-- Checks the header of the table at `offset` of its section, for a unit stored as `e` says. -/
def check (e : Encoding) (data : Bytes) (offset : Nat) : Except DebugFault Unit :=
  if data.length < offset then .error .unexpectedEnd
  else
    let header : Scan Unit := do
      let (length, offsetSize) ← Scan.initialLength e.order
      Scan.limited length (body { e with offsetSize })
    header.run' (data.drop offset)

end MachInspect.Debug.LineTable
