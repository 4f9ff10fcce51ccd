-- SUMMARY: The command-line program.
import MachInspect.Command.Report

/-!
# The program

Reads the command line, the logging variables and the file; everything else is decided by
`Command.run`. The status is 2 for a command line that is not understood, 101 if a page overflows,
and 1 for any other failure.
-/
namespace MachInspect

def usage : String :=
  "usage: machinspect [OPTIONS] FILE COMMAND\n\n"
    ++ "commands: info, sections, symbols, lookup ADDRESS, section SECTION [--type TYPE],\n"
    ++ "  symbol SYMBOL [--type TYPE], relocs [SECTION | --symbol SYMBOL], eh-frame, open ANCHOR\n"
    ++ "options: --log-level LEVEL, --log-format FORMAT, --no-dwarf, --force-long-double"

/-- The contents of a file. -/
def readContents (path : String) : IO (Except Error Bytes) := do
  try
    return .ok (← IO.FS.readBinFile path).toList
  catch
    | .noFileOrDirectory .. => return .error .fileMissing
    | e => return .error (.fileUnreadable (toString e))

/-- The CPU that the program is built for. -/
def host : Arch := .x86_64

/-- Runs a command line that was understood. -/
def runInvocation (invocation : Command.Invocation) : IO UInt32 := do
  match Command.run host invocation (← readContents invocation.file) with
  | .ok report =>
    if report.overflows then
      IO.eprintln "attempt to add with overflow"
      return 101
    IO.print report.outputText
    IO.eprint report.warningText
    return 0
  | .error e =>
    IO.eprintln ("Error: " ++ e.message)
    return 1

end MachInspect

def main (args : List String) : IO UInt32 := do
  match MachInspect.Command.Invocation.parse? args with
  | none =>
    IO.eprintln MachInspect.usage
    return 2
  | some invocation =>
    let format ← IO.getEnv "MACHINSPECT_LOG_FORMAT"
    let file ← IO.getEnv "MACHINSPECT_LOG_FILE"
    match MachInspect.Logging.Config.ofVariables format file with
    | .error fault =>
      IO.eprintln ("Failed to initialize logging: " ++ fault.message)
      return 1
    | .ok _ => MachInspect.runInvocation invocation
