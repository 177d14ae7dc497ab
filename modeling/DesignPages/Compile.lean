import DesignPages.Component.Template
import DesignPages.Export.File
import DesignPages.Frame.Admission
import DesignPages.Frame.Extract
import DesignPages.Frame.Wire
import DesignPages.Json.Printer
import DesignPages.Options
import DesignPages.Page

/-!
# Compilation

This module compiles a design into a page.  The analysis classifies every frame of the design; the
generation decides which of them become components, writes these, and puts them together.  Both
stages can run apart, with the analyzed frames as JSON in between.
-/

namespace DesignPages

/-- A page and what became of the frames. -/
structure Compilation where
  page : Page
  diagnostics : Diagnostics
  deriving DecidableEq, Repr

/-- Why a compilation fails. -/
inductive CompileError where
  | read (e : Export.ReadError)
  | unknownCategory (e : UnknownCategory)
  | namingCollision (e : NamingCollision)
  deriving DecidableEq, Repr

/-- Gives a frame its category. -/
def Frame.analyze (options : Options) (f : Frame) : AnalyzedFrame :=
  .of f (Classification.ofFrame options.areas f.name f.box).category

/-- Classifies every frame of a design. -/
def Design.analyze (options : Options) (root : Option Design) : List AnalyzedFrame :=
  match root with
  | none => []
  | some d => d.extract.map (Frame.analyze options)

/-- Decides about an analyzed frame.  A frame that is marked to be skipped is skipped whatever its
facts are. -/
def Ledger.judge (l : Ledger) (a : AnalyzedFrame) : Admission × Ledger :=
  if a.shouldSkip then l.skip else l.consider a.category a.frame

/-- The component of a frame under a name. -/
def AnalyzedFrame.component (a : AnalyzedFrame) (name : String) : Component where
  id := a.frame.id
  originalName := a.frame.name
  category := a.category
  name := name
  source := Template.render a.category name a.frame.texts a.frame.style
  texts := a.frame.texts

/-- Decides about frames one after the other.  The result holds the components of those that were
admitted, and the ledger at the end. -/
def Ledger.admitFrames : Ledger → List AnalyzedFrame → List Component × Ledger
  | l, [] => ([], l)
  | l, a :: as =>
    let (admission, l) := l.judge a
    let (cs, l) := l.admitFrames as
    match admission with
    | .admitted name => (a.component name :: cs, l)
    | _ => (cs, l)

namespace Compilation

/-- Generates a page from analyzed frames. -/
def generate (options : Options) (frames : List AnalyzedFrame) :
    Except NamingCollision Compilation := do
  let (components, ledger) := Ledger.empty.admitFrames frames
  let page ← Page.assemble options.page components
  return ⟨page, ledger.diagnostics⟩

/-- Compiles a design. -/
def ofDesign (options : Options) (root : Option Design) : Except NamingCollision Compilation :=
  generate options (Design.analyze options root)

/-- Compiles the export that a text holds. -/
def ofExport (options : Options) (text : String) : Except CompileError Compilation := do
  let file ← (Export.File.read text).mapError .read
  (ofDesign options file.document).mapError .namingCollision

/-- Generates a page from the analyzed frames that a text holds.  The text is read to its end before
any label is looked at. -/
def ofFrames (options : Options) (text : String) : Except CompileError Compilation := do
  let labeled ← (LabeledFrame.readList text).mapError fun e => .read (.json e)
  let frames ← (labeled.mapM LabeledFrame.categorize).mapError .unknownCategory
  (generate options frames).mapError .namingCollision

/-- Analyzes a design, prints the frames, and generates a page from the printed text. -/
def ofPrintedFrames (options : Options) (root : Option Design) : Except CompileError Compilation :=
  ofFrames options (AnalyzedFrame.listToJson (Design.analyze options root)).compact

end Compilation
end DesignPages
