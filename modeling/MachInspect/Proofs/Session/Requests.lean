-- SUMMARY: Requests to a session as data, and runs of many of them.
import MachInspect.Proofs.Execution
import MachInspect.Session

/-!
# Requests

A `Request` is one question to a session. `Request.run` asks it, and `Session.answers` asks a whole
list, one after the other.
-/
namespace MachInspect

open View Value

/-- A question to a session. -/
inductive Request where
  | sectionPage (number : UInt64) (semantic? : Option Semantic)
  | symbolPage (number : UInt64) (semantic? : Option Semantic)
  | openAnchor (anchor : Anchor)
  | sectionTable (number : UInt64)
  | symbolTable (number : UInt64)
  | lookup (address : UInt64)
  | debugInfo
  /-- The declared type of a variable, asked of the session's debug information. -/
  | variableType (name : String)

inductive Answer where
  | page (page : Page)
  | table (table : List RelocColumns)
  | hit (hit? : Option SymbolIndex.Hit)
  | debug (info? : Option Debug.Info)
  | noDebug
  | type (type? : Option ValueType)

namespace Request

def ask : Request → Inspect Answer
  | sectionPage number semantic? => return .page (← Inspect.sectionPage number semantic?)
  | symbolPage number semantic? => return .page (← Inspect.symbolPage number semantic?)
  | openAnchor anchor => return .page (← Inspect.openAnchor anchor)
  | sectionTable number => return .table (← Inspect.sectionTable number)
  | symbolTable number => return .table (← Inspect.symbolTable number)
  | lookup address => return .hit ((← get).index.lookup address)
  | debugInfo => return .debug (← Inspect.debugInfo)
  | variableType name => do
    match ← Inspect.debugInfo with
    | none => return .noDebug
    | some info => return .type (← Inspect.variableType info name)

/-- The answer to a request, and the session after it. -/
def run (r : Request) (s : Session) : Except Error Answer × Session := exec r.ask s

end Request

namespace Session

/-- The session after a list of requests. -/
def after (s : Session) (requests : List Request) : Session :=
  requests.foldl (fun s r => (r.run s).2) s

/-- The answers to a list of requests, asked one after the other. -/
def answers (s : Session) : List Request → List (Except Error Answer)
  | [] => []
  | r :: rest => (r.run s).1 :: (r.run s).2.answers rest

end Session

end MachInspect
