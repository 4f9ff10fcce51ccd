import MachInspect.Anchor
import MachInspect.Binary.ByteOrder
import MachInspect.Binary.Leb128
import MachInspect.Binary.Slices
import MachInspect.Code.Arm
import MachInspect.Code.Arm64
import MachInspect.Code.Basic
import MachInspect.Code.Decoder
import MachInspect.Code.PowerPc
import MachInspect.Code.Word
import MachInspect.Code.X86
import MachInspect.Code.X86.Opcode
import MachInspect.Code.X86.Operand
import MachInspect.Command.Arguments
import MachInspect.Command.Report
import MachInspect.Cpu.Arch
import MachInspect.Cpu.Registers
import MachInspect.Debug.Attribute
import MachInspect.Debug.Entry
import MachInspect.Debug.Info
import MachInspect.Debug.LineTable
import MachInspect.Debug.Names
import MachInspect.Debug.Scan
import MachInspect.Debug.Units
import MachInspect.Debug.VariableType
import MachInspect.Decimal.Binary
import MachInspect.Decimal.Rounding
import MachInspect.Decimal.Shortest
import MachInspect.Error
import MachInspect.Frame.Pointer
import MachInspect.Frame.Record
import MachInspect.Frame.Section
import MachInspect.Image.Basic
import MachInspect.Image.Describe
import MachInspect.Image.FlagSet
import MachInspect.Image.Kind
import MachInspect.Image.Names
import MachInspect.Image.Outline
import MachInspect.Image.Reader
import MachInspect.Logging
import MachInspect.Main
import MachInspect.Proofs.Anchor.RoundTrip
import MachInspect.Proofs.Binary.Exactness
import MachInspect.Proofs.Binary.Groups
import MachInspect.Proofs.Binary.Numbers
import MachInspect.Proofs.Code.Alignment
import MachInspect.Proofs.Debug.Types
import MachInspect.Proofs.Debug.Variables
import MachInspect.Proofs.Decimal.Formats
import MachInspect.Proofs.Decimal.Layout
import MachInspect.Proofs.Decimal.Rationals
import MachInspect.Proofs.Decimal.Shortest
import MachInspect.Proofs.Decimal.Significant
import MachInspect.Proofs.Decimal.Texts
import MachInspect.Proofs.Execution
import MachInspect.Proofs.Frame.Adding
import MachInspect.Proofs.Frame.Agreement
import MachInspect.Proofs.Frame.Augmentation
import MachInspect.Proofs.Frame.Bodies
import MachInspect.Proofs.Frame.Heads
import MachInspect.Proofs.Frame.Letters
import MachInspect.Proofs.Frame.Locality
import MachInspect.Proofs.Frame.Pointers
import MachInspect.Proofs.Frame.Reading
import MachInspect.Proofs.Frame.Records
import MachInspect.Proofs.Frame.Relative
import MachInspect.Proofs.Frame.RoundTrip
import MachInspect.Proofs.Frame.Stored
import MachInspect.Proofs.Frame.Tiling
import MachInspect.Proofs.Frame.Walk
import MachInspect.Proofs.Image.Contents
import MachInspect.Proofs.Image.FlagWords
import MachInspect.Proofs.Image.Numbering
import MachInspect.Proofs.Image.Reading
import MachInspect.Proofs.Reloc.Bases
import MachInspect.Proofs.Reloc.Immediates
import MachInspect.Proofs.Reloc.Overflow
import MachInspect.Proofs.Session.Highlighting
import MachInspect.Proofs.Session.Loading
import MachInspect.Proofs.Session.Requests
import MachInspect.Proofs.Session.SectionNumbers
import MachInspect.Proofs.Session.Transparency
import MachInspect.Proofs.Symbols.Binding
import MachInspect.Proofs.Symbols.Extents
import MachInspect.Proofs.Symbols.Groups
import MachInspect.Proofs.Symbols.Lookup
import MachInspect.Proofs.Symbols.Members
import MachInspect.Proofs.Symbols.Order
import MachInspect.Proofs.Text.Literals
import MachInspect.Proofs.Text.Numerals
import MachInspect.Proofs.Text.Separators
import MachInspect.Proofs.Text.Spelling
import MachInspect.Proofs.Value.Enumerators
import MachInspect.Proofs.Value.Floats
import MachInspect.Proofs.Value.General
import MachInspect.Proofs.Value.LongDoubles
import MachInspect.Proofs.Value.Outcomes
import MachInspect.Proofs.Value.OwnBytes
import MachInspect.Proofs.View.Focus
import MachInspect.Proofs.View.Overflows
import MachInspect.Proofs.View.Places
import MachInspect.Proofs.View.Ranges
import MachInspect.Proofs.View.Relocations
import MachInspect.Proofs.View.Strings
import MachInspect.Proofs.View.SymbolRows
import MachInspect.Proofs.View.SymbolZeros
import MachInspect.Proofs.View.Tiling
import MachInspect.Reloc.Table
import MachInspect.Reloc.Target
import MachInspect.Session
import MachInspect.Symbols.Demangle
import MachInspect.Symbols.Demangle.Cursor
import MachInspect.Symbols.Demangle.Elements
import MachInspect.Symbols.Demangle.Paths
import MachInspect.Symbols.Demangle.Writer
import MachInspect.Symbols.Index
import MachInspect.Symbols.Listing
import MachInspect.Text.Combining
import MachInspect.Text.Graphic
import MachInspect.Text.Hex
import MachInspect.Text.Numeral
import MachInspect.Text.Punycode
import MachInspect.Text.Quoted
import MachInspect.Text.Unseen
import MachInspect.Text.Utf8
import MachInspect.Value.Floating
import MachInspect.Value.LongDouble
import MachInspect.Value.Render
import MachInspect.Value.Type
import MachInspect.View.Region
import MachInspect.View.Row
import MachInspect.View.Section
import MachInspect.View.Semantic
import MachInspect.View.Symbol
