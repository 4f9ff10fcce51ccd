-- SUMMARY: Command lines, read into what they ask for.
import MachInspect.Logging
import MachInspect.View.Semantic
import MachInspect.Anchor

/-!
# Command lines

A command line is a file, a command, and the arguments of the command. Options may stand anywhere:
`--type x` or `--type=x`. The value of an option does not start with a dash. After `--` everything
is an argument, also what starts with a dash. An option may be given once before the command and
once after it. A command line is either understood in full or refused.
-/
namespace MachInspect.Command

open View

/-- Whose relocations to list. -/
inductive RelocScope where
  | everything
  | ofSection (spec : String)
  | ofSymbol (spec : String)
  deriving DecidableEq, Repr

/-- What to do with the file. -/
inductive Request where
  | info
  | sections
  | symbols
  | lookup (address : String)
  | showSection (spec : String) (semantic : Option Semantic)
  | showSymbol (spec : String) (semantic : Option Semantic)
  | relocs (scope : RelocScope)
  | ehFrame
  | openAnchor (anchor : Anchor)
  deriving DecidableEq, Repr

/-- A command line that was understood. -/
structure Invocation where
  file : String
  request : Request
  loadDebug : Bool
  forceLongDouble : Bool
  deriving DecidableEq, Repr

-- ---------------------------------------------------------------------------
-- Words
-- ---------------------------------------------------------------------------

/-- The words of one level: before the command, or after it. -/
structure Words where
  arguments : List String := []
  /-- Options with their values. -/
  values : List (String × String) := []
  /-- Options without a value. -/
  switches : List String := []
  /-- The command, and what follows it. -/
  command : Option (String × List String) := none
  deriving DecidableEq, Repr

/-- What a level understands. -/
structure Vocabulary where
  valued : List String
  switches : List String
  commands : List String
  deriving DecidableEq, Repr

/-- Starts with a dash and is more than that. -/
def isOption (word : String) : Bool := word.toList.head? == some '-' && word ≠ "-"

/-- The name of a long option and the value written to it, if the word is one. -/
def longOption? (word : String) : Option (String × Option String) := do
  let body ← Anchor.after? "--" word.toList
  match Anchor.splitOnce? '=' body with
  | some (name, value) => return (String.ofList name, some (String.ofList value))
  | none => return (String.ofList body, none)

namespace Words

def addArgument (w : Words) (argument : String) : Words :=
  { w with arguments := w.arguments ++ [argument] }

/-- Adds the value of an option, which must not have one yet. -/
def addValue? (w : Words) (name value : String) : Option Words :=
  if (w.values.lookup name).isSome then none
  else some { w with values := w.values ++ [(name, value)] }

/-- Adds a switch, which must not be there yet. -/
def addSwitch? (w : Words) (name : String) : Option Words :=
  if w.switches.contains name then none else some { w with switches := w.switches ++ [name] }

/-- Sorts words until they end or a command comes. -/
def collect? (v : Vocabulary) (w : Words) : List String → Option Words
  | [] => some w
  | word :: rest =>
    if word = "--" then some { w with arguments := w.arguments ++ rest }
    else if v.commands.contains word then some { w with command := some (word, rest) }
    else
      match longOption? word with
      | some (name, written) =>
        if v.valued.contains name then
          match written with
          | some value => (w.addValue? name value).bind fun w => w.collect? v rest
          | none =>
            match rest with
            | [] => none
            | value :: rest =>
              if isOption value then none
              else (w.addValue? name value).bind fun w => w.collect? v rest
        else if v.switches.contains name ∧ written = none then
          (w.addSwitch? name).bind fun w => w.collect? v rest
        else none
      | none => if isOption word then none else (w.addArgument word).collect? v rest

end Words

-- ---------------------------------------------------------------------------
-- The two levels
-- ---------------------------------------------------------------------------

/-- Options that are understood everywhere. -/
def everywhere : Vocabulary where
  valued := ["log-level", "log-format"]
  switches := ["no-dwarf", "force-long-double"]
  commands := []

/-- Words that end the first level. The last one only shows help, so it is refused. -/
def commandNames : List String :=
  ["info", "sections", "symbols", "lookup", "section", "symbol", "relocs", "eh-frame", "open",
   "help"]

/-- Whether the logging options of a level are understood. -/
def loggingFits (w : Words) : Bool :=
  let fits (name : String) (read : String → Bool) := ((w.values.lookup name).map read).getD true
  fits "log-level" (fun text => (Logging.Level.parse text).isOk)
    && fits "log-format" (fun text => (Logging.Format.parse text).isOk)

/-- Reads the words of one level. -/
def level? (v : Vocabulary) (words : List String) : Option Words :=
  (Words.collect? v {} words).filter loggingFits

/-- The words after a command that also takes the option `option`. -/
def tail? (option : Option String) (words : List String) : Option Words :=
  level? { everywhere with valued := everywhere.valued ++ option.toList } words

/-- The semantic type that `--type` asks for. -/
def semantic? (w : Words) : Option (Option Semantic) :=
  match w.values.lookup "type" with
  | none => some none
  | some text => (Semantic.parse text).toOption.map some

/-- A command without arguments. -/
def plain? (request : Request) (words : List String) : Option (Words × Request) := do
  let w ← tail? none words
  if w.arguments.isEmpty then return (w, request) else none

/-- A command with one argument. -/
def single? (option : Option String) (make : Words → String → Option Request)
    (words : List String) : Option (Words × Request) := do
  let w ← tail? option words
  match w.arguments with
  | [argument] => return (w, ← make w argument)
  | _ => none

/-- The relocations asked for: a section and a symbol exclude each other. -/
def relocs? (words : List String) : Option (Words × Request) := do
  let w ← tail? (some "symbol") words
  match w.arguments, w.values.lookup "symbol" with
  | [], none => return (w, .relocs .everything)
  | [], some spec => return (w, .relocs (.ofSymbol spec))
  | [spec], none => return (w, .relocs (.ofSection spec))
  | _, _ => none

/-- A command and its own words. -/
def request? (name : String) (words : List String) : Option (Words × Request) :=
  match name with
  | "info" => plain? .info words
  | "sections" => plain? .sections words
  | "symbols" => plain? .symbols words
  | "lookup" => single? none (fun _ address => some (.lookup address)) words
  | "section" =>
    single? (some "type") (fun w spec => (semantic? w).map (Request.showSection spec)) words
  | "symbol" => single? (some "type") (fun w spec => (semantic? w).map (Request.showSymbol spec)) words
  | "relocs" => relocs? words
  | "eh-frame" => plain? .ehFrame words
  | "open" =>
    single? none (fun _ text => (Anchor.parse text).toOption.map Request.openAnchor) words
  | _ => none

/-- Reads a command line, without the name of the program. -/
def Invocation.parse? (words : List String) : Option Invocation := do
  let first ← level? { everywhere with commands := commandNames } words
  let (name, rest) ← first.command
  let (last, request) ← request? name rest
  match first.arguments with
  | [file] =>
    if file = "" then none
    else
      let given (name : String) := first.switches.contains name || last.switches.contains name
      return {
        file
        request
        loadDebug := !given "no-dwarf"
        forceLongDouble := given "force-long-double" }
  | _ => none

end MachInspect.Command
