import DesignPages.Json.Decode
import DesignPages.Options

/-!
# Options as JSON

This module reads the options of a compilation.  Every option may be left out.
-/

namespace DesignPages

open Json (Decoder Record)

/-- The record of the page options. -/
def PageOptions.record : Record PageOptions where
  name := "struct PageOptions"
  fields :=
    [.of "title" .defaulted Decoder.string fun v p => { p with title := v },
     .of "lang" .defaulted Decoder.string fun v p => { p with lang := v },
     .of "componentsDir" .defaulted Decoder.string fun v p => { p with componentsDir := v },
     .of "tailwindCdn" .defaulted (Decoder.nullable Decoder.string) fun v p =>
      { p with script := v }]
  blank := .standard

/-- The record of the areas. -/
def AreaBounds.record : Record AreaBounds where
  name := "struct ClassifierOptions"
  fields :=
    [.of "sectionArea" .defaulted Decoder.double fun v c => { c with sectionArea := v },
     .of "heroArea" .defaulted Decoder.double fun v c => { c with heroArea := v }]
  blank := .standard

/-- The record of the options. -/
def Options.record : Record Options where
  name := "struct CompileOptions"
  fields :=
    [.of "page" .defaulted PageOptions.record.decoder fun v o => { o with page := v },
     .of "classifier" .defaulted AreaBounds.record.decoder fun v o =>
      { o with areas := v }]
  blank := .standard

/-- Reads options from a text. -/
def Options.read (text : String) : Except Json.Fault Options :=
  Json.readStreamed Options.record.decoder text

end DesignPages
