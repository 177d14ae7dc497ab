import DesignPages.CommandLine.Run

/-!
# The program

This module runs a command line on the real files.
-/

open DesignPages CommandLine

/-- The text of a file, if it can be read. -/
def readText? (path : String) : IO (Option String) := do
  try
    return some (← IO.FS.readFile path)
  catch _ =>
    return none

/-- The text of the standard input, if it can be read. -/
def readStandardText? : IO (Option String) := do
  try
    return some (← (← IO.getStdin).readToEnd)
  catch _ =>
    return none

/-- Makes one change to the real files and says whether it worked. -/
def applyStep (s : Step) : IO Bool := do
  try
    match s with
    | .makeFolder path => IO.FS.createDirAll path
    | .writeFile path content => IO.FS.writeFile path content
    return true
  catch _ =>
    return false

/-- Carries out an operation on the real surroundings. -/
def carryOut : (operation : Operation) → IO operation.Reply
  | .readStandard => readStandardText?
  | .readFile path => readText? path
  | .print text => IO.print text
  | .change step => applyStep step
  | .report text => IO.eprintln text

/-- Performs an action. -/
def perform {α : Type} : Action α → IO (Except Failure α)
  | .done a => return .ok a
  | .fail e => return .error e
  | .perform operation next => do perform (next (← carryOut operation))

/-- Runs a command line. -/
def main (arguments : List String) : IO UInt32 := do
  match CommandLine.read (← IO.getEnv "SPRIG_PAGE_TITLE") arguments with
  | .error e =>
    IO.eprintln ("error: " ++ e.message)
    return 2
  | .ok .showVersion =>
    IO.print versionText
    return 0
  | .ok .showHelp =>
    IO.print helpText
    return 0
  | .ok (.run c) =>
    match ← perform (execute c) with
    | .ok () => return 0
    | .error e =>
      IO.eprintln ("Error: " ++ e.message)
      return 1
