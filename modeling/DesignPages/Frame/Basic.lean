import DesignPages.Category
import DesignPages.Design.Paint
import DesignPages.Style.Tokens

/-!
# Frames

This module holds what is known about a frame once the design has been walked, and once it has been
classified.
-/

namespace DesignPages

/-- The facts about one frame of a design. -/
structure Frame where
  id : String
  /-- The name that the author gave to the frame. -/
  name : String
  /-- The lines of text below the frame, in order. -/
  texts : List String
  hasChildFrames : Bool
  box : Option Box
  style : StyleTokens
  deriving DecidableEq, Repr

/-- Whether the frame only holds other frames together: there is no text below it. -/
def Frame.isContainer (f : Frame) : Bool :=
  f.texts.isEmpty && f.hasChildFrames

/-- A frame with its category, as the analysis hands it over to the generation. -/
structure AnalyzedFrame where
  frame : Frame
  category : Category
  shouldSkip : Bool
  deriving DecidableEq, Repr

/-- A frame with a category; containers are marked to be skipped. -/
def AnalyzedFrame.of (frame : Frame) (category : Category) : AnalyzedFrame :=
  ⟨frame, category, frame.isContainer⟩

end DesignPages
