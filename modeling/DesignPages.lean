import DesignPages.Text.Blank
import DesignPages.Text.Lowercase
import DesignPages.Text.Quoted
import DesignPages.Text.FormEncoding
import DesignPages.Json.Literal
import DesignPages.Json.Printer
import DesignPages.Json.Scan
import DesignPages.Json.Arrange
import DesignPages.Json.Decode
import DesignPages.Category
import DesignPages.Style.Tokens
import DesignPages.Frame.Extract
import DesignPages.Options
import DesignPages.Frame.Admission
import DesignPages.Component.Template
import DesignPages.Page
import DesignPages.Frame.Wire
import DesignPages.Options.Wire
import DesignPages.Export.File
import DesignPages.Link
import DesignPages.Compile.Wire
import DesignPages.Main
import DesignPages.Proofs.Frame.Selection
import DesignPages.Proofs.Frame.Naming
import DesignPages.Proofs.Page.Assembly
import DesignPages.Proofs.Generation
import DesignPages.Proofs.Component.Structure
import DesignPages.Proofs.Json.Literal
import DesignPages.Proofs.Number.Narrowing
import DesignPages.Proofs.Number.Product
import DesignPages.Proofs.Style.Channel
import DesignPages.Proofs.Json.Decode
import DesignPages.Proofs.Style.Wire
import DesignPages.Proofs.Frame.Wire
import DesignPages.Proofs.Export.Finite
import DesignPages.Proofs.Frame.Reread
import DesignPages.Proofs.Staging
import DesignPages.Proofs.Page.Order
import DesignPages.Proofs.Frame.RoundTrip
import DesignPages.Proofs.Component.SelfContained
import DesignPages.Proofs.Page.Document
import DesignPages.Proofs.Frame.History
import DesignPages.Proofs.Page.Independence
import DesignPages.Proofs.CommandLine.Imports
import DesignPages.Proofs.Export.Forms
import DesignPages.Proofs.Component.Binding
import DesignPages.Proofs.Frame.Segments
import DesignPages.Proofs.Design.RoundTrip
import DesignPages.Proofs.Export.Content
import DesignPages.Proofs.Markup.Escape
import DesignPages.Proofs.Component.Literal
import DesignPages.Proofs.Component.Shown
import DesignPages.Proofs.Frame.Normalization
import DesignPages.Proofs.Frame.Classification
import DesignPages.Proofs.Frame.Labels
import DesignPages.Proofs.Export.Hidden
import DesignPages.Proofs.Frame.Diagnostics
import DesignPages.Proofs.Text.Run
import DesignPages.Proofs.Link.Key
import DesignPages.Proofs.Text.Hex
import DesignPages.Proofs.Text.FormEncoding
import DesignPages.Proofs.Link.Query
import DesignPages.Proofs.Component.Placeholder
import DesignPages.Proofs.Style.Classes
import DesignPages.Proofs.Component.RootClass
import DesignPages.Proofs.Category.Label
import DesignPages.Proofs.CommandLine.Inputs
