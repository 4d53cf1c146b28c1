import ZodGraph.Command
import ZodGraph.Command.Help
import ZodGraph.Command.Run
import ZodGraph.Dependency
import ZodGraph.Dependency.Order
import ZodGraph.Double
import ZodGraph.Double.Read
import ZodGraph.Double.Shortest
import ZodGraph.Double.Text
import ZodGraph.Emission
import ZodGraph.FileFault
import ZodGraph.FileTree
import ZodGraph.Graph
import ZodGraph.Graph.Reader
import ZodGraph.Json
import ZodGraph.Json.Error
import ZodGraph.Json.FromText
import ZodGraph.Json.FromValue
import ZodGraph.Json.Lexeme
import ZodGraph.Json.Printer
import ZodGraph.Json.Source
import ZodGraph.Json.Text
import ZodGraph.Log
import ZodGraph.Log.Directive
import ZodGraph.Log.Events
import ZodGraph.Log.Filter
import ZodGraph.Log.Pattern
import ZodGraph.Main
import ZodGraph.Options
import ZodGraph.Options.Config
import ZodGraph.Package
import ZodGraph.Path
import ZodGraph.Proofs.Acceptance
import ZodGraph.Proofs.Acceptance.Reading
import ZodGraph.Proofs.Acceptance.Validator
import ZodGraph.Proofs.Dependency.Graph
import ZodGraph.Proofs.Dependency.Order
import ZodGraph.Proofs.Dependency.Walk
import ZodGraph.Proofs.Schema.Agreement
import ZodGraph.Proofs.Schema.Document
import ZodGraph.Proofs.Schema.Lexeme
import ZodGraph.Proofs.Schema.Mention
import ZodGraph.Proofs.Schema.Once
import ZodGraph.Proofs.Schema.Reference
import ZodGraph.Proofs.Schema.Reordering
import ZodGraph.Proofs.Schema.Unambiguous
import ZodGraph.Proofs.Selection
import ZodGraph.Proofs.Selection.Declared
import ZodGraph.Scalar
import ZodGraph.Schema
import ZodGraph.Schema.Assembly
import ZodGraph.Schema.Build
import ZodGraph.Schema.Name
import ZodGraph.Schema.Text
import ZodGraph.Scope
import ZodGraph.Selection
import ZodGraph.Store
import ZodGraph.Text
import ZodGraph.Text.Class
import ZodGraph.Yaml.Cursor
import ZodGraph.Yaml.Node
import ZodGraph.Yaml.Scalar
import ZodGraph.Yaml.Tag
import ZodGraph.Yaml.Token
import ZodGraph.Yaml.Value
import ZodGraph.Proofs.Json.Lexeme
import ZodGraph.Proofs.Json.Number
import ZodGraph.Proofs.Json.Layout
import ZodGraph.Proofs.Json.Record
import ZodGraph.Proofs.Json.Reader
import ZodGraph.Proofs.Json.Lawful
import ZodGraph.Proofs.Json.Edit
import ZodGraph.Proofs.Json.Replace
import ZodGraph.Proofs.Json.Collapse
import ZodGraph.Proofs.Graph.Levels
import ZodGraph.Proofs.Graph.Place
import ZodGraph.Proofs.Graph.Lenient
import ZodGraph.Proofs.Store
import ZodGraph.Proofs.Emission
import ZodGraph.Proofs.Emission.Kept
import ZodGraph.Proofs.Json.Follow
import ZodGraph.Proofs.Json.Fields
import ZodGraph.Proofs.Graph.Written
import ZodGraph.Proofs.Graph.Recovery
import ZodGraph.Proofs.Dependency.DepthFirst
import ZodGraph.Proofs.Selection.Stable
import ZodGraph.Proofs.Schema.WellBuilt
import ZodGraph.Proofs.Script.Literal
import ZodGraph.Proofs.Schema.ReadBack
import ZodGraph.Proofs.Schema.Comment
import ZodGraph.Proofs.Schema.Fragment
import ZodGraph.Proofs.Schema.Indent
import ZodGraph.Proofs.Schema.Optional
import ZodGraph.Proofs.Text.Paragraph
import ZodGraph.Proofs.Schema.Sections
import ZodGraph.Proofs.Dependency.Heads
import ZodGraph.Proofs.Text.Split
import ZodGraph.Proofs.Path
import ZodGraph.Proofs.Json.Printer
import ZodGraph.Proofs.Package
import ZodGraph.Proofs.Schema.Exports
import ZodGraph.Proofs.Package.Readme
