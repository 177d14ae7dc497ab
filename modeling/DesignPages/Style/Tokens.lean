import DesignPages.Style.Color
import DesignPages.Style.Pixels
import DesignPages.Style.Typography

/-!
# Style tokens

This module holds the small vocabulary that the looks of a frame are reduced to, and the classes
that stand for it.
-/

namespace DesignPages

/-- The looks of a frame.  Each token stands on its own. -/
structure StyleTokens where
  background : Option Color
  elevated : Bool
  border : Option Float
  fontSize : Option FontSize
  fontWeight : Option FontWeight
  deriving DecidableEq, Repr

namespace StyleTokens

/-- No token at all. -/
def none : StyleTokens := ⟨.none, false, .none, .none, .none⟩

/-- Whether there is no token at all. -/
def isEmpty (s : StyleTokens) : Bool :=
  s.background.isNone && !s.elevated && s.border.isNone && s.fontSize.isNone &&
    s.fontWeight.isNone

/-- The class of a background. -/
def backgroundClass (c : Color) : String :=
  "bg-[" ++ c.toHex ++ "]"

/-- The class of a border. -/
def borderClass (px : Float) : String :=
  "border-[" ++ String.ofList (Pixels.chars px) ++ "px]"

/-- One class for every token that is there. -/
def classes (s : StyleTokens) : List String :=
  (s.background.map backgroundClass).toList ++
    (if s.elevated then ["shadow-lg"] else []) ++
    (s.border.map borderClass).toList ++
    (s.fontSize.map FontSize.className).toList ++
    (s.fontWeight.map FontWeight.className).toList

end StyleTokens
end DesignPages
