import DesignPages.Compile

/-!
# Compilations as JSON

This module writes components, pages and compilations as JSON.
-/

namespace DesignPages

/-- A component as JSON. -/
def Component.toJson (c : Component) : Json :=
  .obj
    [("id", .str c.id),
     ("originalName", .str c.originalName),
     ("componentType", .str c.category.label),
     ("componentName", .str c.name),
     ("code", .str c.source),
     ("texts", .ofTexts c.texts)]

/-- A page as JSON. -/
def Page.toJson (p : Page) : Json :=
  .obj [("components", .ofList Component.toJson p.components), ("indexFile", .str p.source)]

/-- What became of the frames, as JSON. -/
def Diagnostics.toJson (d : Diagnostics) : Json :=
  .obj
    [("totalFrames", .ofNat d.totalFrames),
     ("generatedComponents", .ofNat d.generatedComponents),
     ("skippedFrames", .ofNat d.skippedFrames),
     ("rejectedDuplicates", .ofNat d.rejectedDuplicates)]

/-- A compilation as JSON. -/
def Compilation.toJson (c : Compilation) : Json :=
  .obj [("page", c.page.toJson), ("generationStats", c.diagnostics.toJson)]

end DesignPages
