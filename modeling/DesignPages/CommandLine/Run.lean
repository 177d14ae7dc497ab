import DesignPages.CommandLine.Execution
import DesignPages.CommandLine.Folder

/-!
# Running commands

This module runs a command line in a world: it reads the arguments and carries out the command.  A
folder is such a world, in which the standard input is a given text.
-/

namespace DesignPages
namespace CommandLine

/-- What a run leaves behind besides files. -/
structure Report where
  code : Nat
  output : String
  summary : Option String
  failure : Option Failure
  deriving DecidableEq, Repr

/-- The message about the failure, if there was one. -/
def Report.error (r : Report) : Option String :=
  r.failure.map Failure.message

/-- The name and version of the program. -/
def versionText : String := "sprig 0.1.0\n"

/-- The explanation of the commands. -/
def helpText : String :=
  "Compile design exports into Astro components\n\n" ++
  "Commands:\n" ++
  "  compile   Analyze and generate in one step\n" ++
  "  analyze   Print the analyzed frames as JSON\n" ++
  "  generate  Generate components from analyzed frames\n" ++
  "  file-key  Print the file key and embed URL of a design link\n"

section World

variable {σ : Type}

/-- A session in which nothing has been done yet. -/
def Session.start (place : σ) : Session σ :=
  ⟨place, "", none⟩

/-- What a run that ended like this leaves behind. -/
def Session.conclude (s : Session σ) (result : Except Failure Unit) : Report × σ :=
  match result with
  | .ok () => (⟨0, s.output, s.summary, none⟩, s.place)
  | .error e => (⟨1, s.output, s.summary, some e⟩, s.place)

/-- Runs a command in a world. -/
def runCommand (w : World σ) (place : σ) (c : Command) : Report × σ :=
  let (result, s) := (execute c).run w (.start place)
  s.conclude result

/-- Runs a command line in a world. -/
def runIn (w : World σ) (place : σ) (envTitle : Option String) (arguments : List String) :
    Report × σ :=
  match read envTitle arguments with
  | .error _ => (⟨2, "", none, none⟩, place)
  | .ok .showVersion => (⟨0, versionText, none, none⟩, place)
  | .ok .showHelp => (⟨0, helpText, none, none⟩, place)
  | .ok (.run c) => runCommand w place c

end World

/-- Makes one change in a folder, if it can be made. -/
def Step.apply? (f : Folder) : Step → Option Folder
  | .makeFolder path => f.make? path
  | .writeFile path content => f.write? path content

/-- The world of folders with a text as the standard input. -/
def folderWorld (standard : String) : World Folder :=
  ⟨fun _ => some standard, Folder.read?, Step.apply?⟩

/-- Runs a command line in a folder. -/
def run (f : Folder) (envTitle : Option String) (standard : String) (arguments : List String) :
    Report × Folder :=
  runIn (folderWorld standard) f envTitle arguments

end CommandLine
end DesignPages
