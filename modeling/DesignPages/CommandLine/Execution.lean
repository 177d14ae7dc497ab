import DesignPages.CommandLine.Action
import DesignPages.CommandLine.Arguments
import DesignPages.CommandLine.Path
import DesignPages.Compile.Wire
import DesignPages.Options.Wire

/-!
# Execution of commands

This module says what each command does, in the order in which it does it: the options are loaded, the
input is read and converted, and then the result is printed, or its files are written one after the
other.
-/

namespace DesignPages
namespace CommandLine

/-- Reads the input of a command. -/
def readInput (path : String) : Action String :=
  if Path.isStandardInput path then do
    match ← Action.readStandard with
    | some text => return text
    | none => .fail .standardInput
  else do
    match ← Action.readFile path with
    | some text => return text
    | none => .fail (.unreadable path)

/-- Reads the options of the configuration, if there is one. -/
def readConfig : Option String → Action Options
  | none => return .standard
  | some path => do
    match ← Action.readFile path with
    | some text => .ofExcept ((Options.read text).mapError fun _ => .configInvalid path)
    | none => .fail (.configUnreadable path)

/-- The options with those of the command line put over them. -/
def Overrides.apply (a : Overrides) (o : Options) : Options :=
  { o with
    page :=
      { o.page with
        title := a.title.getD o.page.title
        script := if a.noTailwind then none else o.page.script } }

/-- Loads the options of a compilation. -/
def loadOptions (a : Overrides) : Action Options := do
  return a.apply (← readConfig a.config)

/-- The changes that write a page: its components into their folder, and then the page itself. -/
def pageSteps (out componentsDir : String) (p : Page) : List Step :=
  let folder := Path.join out componentsDir
  .makeFolder folder ::
    p.components.map (fun c => .writeFile (Path.join folder c.fileName) c.source) ++
    [.writeFile (Path.join out Page.fileName) p.source]

/-- The report about a compilation. -/
def summary (d : Diagnostics) : String :=
  "Generated " ++ toString d.generatedComponents ++ " components from " ++
    toString d.totalFrames ++ " frames (" ++ toString d.skippedFrames ++ " skipped, " ++
    toString d.rejectedDuplicates ++ " duplicates)"

/-- Delivers a compilation: prints it, or writes its page. -/
def deliver (output : Destination) (options : Options) (c : Compilation) : Action Unit :=
  if output.json then
    .print (c.toJson.pretty ++ "\n")
  else do
    .changeAll (pageSteps output.out options.page.componentsDir c.page)
    .report (summary c.diagnostics)

/-- Carries out a command. -/
def execute : Command → Action Unit
  | .compile input output arguments => do
    let options ← loadOptions arguments
    let text ← readInput input
    let c ← .ofExcept ((Compilation.ofExport options text).mapError fun _ => .notCompiled input)
    deliver output options c
  | .analyze input arguments => do
    let options ← loadOptions arguments
    let text ← readInput input
    let file ← .ofExcept ((Export.File.read text).mapError fun _ => .exportInvalid input)
    let frames := Design.analyze options file.document
    .print ((AnalyzedFrame.listToJson frames).pretty ++ "\n")
  | .generate input output arguments => do
    let options ← loadOptions arguments
    let text ← readInput input
    let c ← .ofExcept ((Compilation.ofFrames options text).mapError fun _ => .notGenerated input)
    deliver output options c
  | .fileKey url => do
    let key ← .ofExcept ((Link.fileKey url).mapError .link)
    .print (key ++ "\n")
    let preview ← .ofExcept ((Link.embed url).mapError .link)
    .print (preview ++ "\n")

end CommandLine
end DesignPages
