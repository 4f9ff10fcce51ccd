-- SUMMARY: Log levels, log formats and the logging configuration, read from text.

/-!
# Logging configuration

Names of levels and formats are read in any mixture of cases.
-/
namespace MachInspect.Logging

inductive Level where
  | error
  | warn
  | info
  | debug
  | trace
  deriving DecidableEq, Repr

inductive Format where
  /-- Lines for people. -/
  | pretty
  /-- One JSON value per event. -/
  | json
  deriving DecidableEq, Repr

/-- A setting that is not understood. -/
inductive Fault where
  | level (text : String)
  | format (text : String)
  deriving DecidableEq, Repr

def Fault.message : Fault → String
  | level text =>
    "Invalid log level: " ++ text ++ ". Use 'error', 'warn', 'info', 'debug', or 'trace'"
  | format text => "Invalid log format: " ++ text ++ ". Use 'pretty' or 'json'"

/-- Lower case, for ASCII letters. No name has a letter that another letter maps to. -/
def lower (text : String) : String := String.ofList (text.toList.map Char.toLower)

def Level.parse (text : String) : Except Fault Level :=
  match lower text with
  | "error" | "err" => .ok .error
  | "warn" | "warning" => .ok .warn
  | "info" => .ok .info
  | "debug" | "dbg" => .ok .debug
  | "trace" => .ok .trace
  | _ => .error (.level text)

def Format.parse (text : String) : Except Fault Format :=
  match lower text with
  | "pretty" | "text" => .ok .pretty
  | "json" => .ok .json
  | _ => .error (.format text)

structure Config where
  format : Format
  /-- Where to log besides standard error. -/
  file : Option String
  deriving DecidableEq, Repr

/-- The configuration that two environment variables ask for. An empty file name counts as none. -/
def Config.ofVariables (format file : Option String) : Except Fault Config := do
  let format ← match format with
    | some text => Format.parse text
    | none => pure .pretty
  return ⟨format, file.filter fun name => name ≠ ""⟩

end MachInspect.Logging
