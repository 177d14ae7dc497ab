import DesignPages.Json.Decode
import DesignPages.Style.Tokens

/-!
# Style tokens as JSON

This module writes colors and style tokens as JSON and reads them back.
-/

namespace DesignPages

open Json (Case Decoder Record)

/-- A color as JSON. -/
def Color.toJson (c : Color) : Json :=
  .obj [("r", .ofSingle c.r), ("g", .ofSingle c.g), ("b", .ofSingle c.b), ("a", .ofSingle c.a)]

/-- The record of a color.  A color without alpha is opaque. -/
def Color.record : Record Color where
  name := "struct Color"
  fields :=
    [.of "r" .required Decoder.single fun x c => { c with r := x },
     .of "g" .required Decoder.single fun x c => { c with g := x },
     .of "b" .required Decoder.single fun x c => { c with b := x },
     .of "a" .defaulted Decoder.single fun x c => { c with a := x }]
  blank := .black

/-- The choice of a font size. -/
def FontSize.cases : List (Case FontSize) :=
  FontSize.all.map fun s => ⟨s.label, .unit s⟩

/-- The choice of a font weight. -/
def FontWeight.cases : List (Case FontWeight) :=
  FontWeight.all.map fun w => ⟨w.label, .unit w⟩

namespace StyleTokens

/-- Style tokens as JSON. -/
def toJson (s : StyleTokens) : Json :=
  .obj
    [("background", .ofOption Color.toJson s.background),
     ("elevated", .bool s.elevated),
     ("border", .ofOption .ofDouble s.border),
     ("fontSize", .ofOption (fun x => .str x.label) s.fontSize),
     ("fontWeight", .ofOption (fun x => .str x.label) s.fontWeight)]

/-- The record of style tokens.  Every token may be left out. -/
def record : Record StyleTokens where
  name := "struct StyleTokens"
  fields :=
    [.of "background" .defaulted (Decoder.nullable Color.record.decoder) fun x s =>
      { s with background := x },
     .of "elevated" .defaulted Decoder.boolean fun x s => { s with elevated := x },
     .of "border" .defaulted (Decoder.nullable Decoder.double) fun x s => { s with border := x },
     .of "fontSize" .defaulted (Decoder.nullable (Case.decoder FontSize.cases)) fun x s =>
      { s with fontSize := x },
     .of "fontWeight" .defaulted (Decoder.nullable (Case.decoder FontWeight.cases)) fun x s =>
      { s with fontWeight := x }]
  blank := .none

/-- Reads style tokens from a text. -/
def read (text : String) : Except Json.Fault StyleTokens :=
  Json.readStreamed record.decoder text

end StyleTokens
end DesignPages
