import BusinessModel.Diagnostic
import BusinessModel.Diagnostic.Code
import BusinessModel.Diagnostic.FindingAdvice
import BusinessModel.Diagnostic.PatternAdvice
import BusinessModel.Document
import BusinessModel.Document.Content
import BusinessModel.Document.Kind
import BusinessModel.Document.Load
import BusinessModel.Document.Pointer
import BusinessModel.Document.Serialize
import BusinessModel.Document.SourceMap
import BusinessModel.Identifier
import BusinessModel.Number.Double
import BusinessModel.Number.Reading
import BusinessModel.Number.Shortest
import BusinessModel.Pattern
import BusinessModel.Pattern.Parse
import BusinessModel.Schema.Address
import BusinessModel.Schema.Block
import BusinessModel.Schema.Bundled
import BusinessModel.Schema.Bundled.Actors
import BusinessModel.Schema.Bundled.Definitions
import BusinessModel.Schema.Bundled.Entities
import BusinessModel.Schema.Bundled.Glossary
import BusinessModel.Schema.Bundled.Hypotheses
import BusinessModel.Schema.Bundled.Links
import BusinessModel.Schema.Bundled.Metrics
import BusinessModel.Schema.Bundled.Mining
import BusinessModel.Schema.Bundled.Process
import BusinessModel.Schema.Bundled.Scenarios
import BusinessModel.Schema.Bundled.Strategy
import BusinessModel.Schema.Bundled.Terms
import BusinessModel.Schema.Bundled.Views
import BusinessModel.Schema.Bundled.Workspace
import BusinessModel.Schema.Check
import BusinessModel.Schema.Files
import BusinessModel.Schema.Finding
import BusinessModel.Schema.Format
import BusinessModel.Schema.Hints
import BusinessModel.Schema.Metadata
import BusinessModel.Schema.Metaschema
import BusinessModel.Schema.Registry
import BusinessModel.Schema.Set
import BusinessModel.Schema.Violation
import BusinessModel.Schema.Walk
import BusinessModel.Service
import BusinessModel.Service.Session
import BusinessModel.Service.Start
import BusinessModel.Settings
import BusinessModel.Settings.EnvFile
import BusinessModel.Text.Blank
import BusinessModel.Text.Case
import BusinessModel.Text.Digit
import BusinessModel.Text.Distance
import BusinessModel.Text.Keyed
import BusinessModel.Text.Printable
import BusinessModel.Text.Quoted
import BusinessModel.Text.Range
import BusinessModel.Text.Utf8
import BusinessModel.Text.Word
import BusinessModel.Value
import BusinessModel.Workspace.Cycle
import BusinessModel.Workspace.Entry
import BusinessModel.Workspace.ReferenceAdvice
import BusinessModel.Workspace.References
import BusinessModel.Workspace.Registry
import BusinessModel.Workspace.Structure
import BusinessModel.Yaml
import BusinessModel.Yaml.Cursor
import BusinessModel.Yaml.Datum
import BusinessModel.Yaml.Error
import BusinessModel.Yaml.Event
import BusinessModel.Yaml.Loaded
import BusinessModel.Yaml.Node
import BusinessModel.Yaml.Pen
import BusinessModel.Yaml.Quoting
import BusinessModel.Yaml.Tag
import BusinessModel.Yaml.Token
import BusinessModel.Yaml.Token.Lexer
import BusinessModel.Yaml.Token.Scalar
import BusinessModel.Yaml.Token.Stream
import BusinessModel.Yaml.Token.Tag
import BusinessModel.Yaml.Written
import BusinessModel.Proofs.Entry
import BusinessModel.Proofs.Cycle.Elementary
import BusinessModel.Proofs.Cycle.Search
import BusinessModel.Proofs.Pattern.Matching
import BusinessModel.Proofs.Identifier
import BusinessModel.Proofs.Identifier.Letters
import BusinessModel.Proofs.Workspace.Definition
import BusinessModel.Proofs.Workspace.Hierarchy
import BusinessModel.Proofs.Workspace.Multiplicity
import BusinessModel.Proofs.Workspace.Permutation
import BusinessModel.Proofs.Service.Gathering
import BusinessModel.Proofs.Service.Reloading
import BusinessModel.Proofs.Document.Anchor
import BusinessModel.Proofs.Yaml.Interruption
import BusinessModel.Proofs.Document.Parsing
import BusinessModel.Proofs.Document.Writing
import BusinessModel.Proofs.Schema.Place
import BusinessModel.Proofs.Tree
import BusinessModel.Proofs.Schema.Engine
import BusinessModel.Proofs.Schema.Finding
import BusinessModel.Proofs.Schema.Location
import BusinessModel.Proofs.Schema.Meeting
import BusinessModel.Proofs.Schema.Reference
import BusinessModel.Proofs.Schema.Metaschema
import BusinessModel.Proofs.Schema.Block
import BusinessModel.Proofs.Schema.Walk
import BusinessModel.Proofs.Schema.Set
import BusinessModel.Proofs.Schema.Coverage
import BusinessModel.Proofs.Schema.Application
import BusinessModel.Proofs.Schema.Bundled.Check
import BusinessModel.Proofs.Schema.Bundled.Descent
import BusinessModel.Proofs.Schema.Bundled.Form
import BusinessModel.Proofs.Schema.Bundled.Letters
import BusinessModel.Proofs.Schema.Bundled.Walk
import BusinessModel.Proofs.Document.Distinct
import BusinessModel.Proofs.Schema.Bundled.Position
import BusinessModel.Proofs.Workspace.Collection
import BusinessModel.Proofs.Document.Building
import BusinessModel.Proofs.Document.Location
import BusinessModel.Proofs.Schema.Arrangement
import BusinessModel.Proofs.Schema.Field
import BusinessModel.Proofs.Service.Text
import BusinessModel.Proofs.Schema.Bundled.Agreement
import BusinessModel.Proofs.Text.Distance
import BusinessModel.Proofs.Text.Closest
import BusinessModel.Proofs.Diagnostic.Explanation
import BusinessModel.Proofs.Diagnostic.Suggestion
import BusinessModel.Proofs.Identifier.Recognition
import BusinessModel.Proofs.Text.Numeral
import BusinessModel.Proofs.Pattern.Reading
import BusinessModel.Proofs.Schema.Bundled.Recognition
import BusinessModel.Proofs.Identifier.Numbering
import BusinessModel.Proofs.Identifier.Next
import BusinessModel.Proofs.Workspace.Proposal
import BusinessModel.Proofs.Workspace.Advice
import BusinessModel.Proofs.Diagnostic.PatternAdvice
import BusinessModel.Proofs.Diagnostic.Repair
import BusinessModel.Proofs.Diagnostic.Unit
import BusinessModel.Proofs.Schema.Shadowing
import BusinessModel.Proofs.Text.Case
import BusinessModel.Proofs.Document.FileName
import BusinessModel.Proofs.Document.FilePattern
import BusinessModel.Proofs.Document.Address
import BusinessModel.Proofs.Yaml.Cursor
import BusinessModel.Proofs.Yaml.Token.Reading
import BusinessModel.Proofs.Yaml.Token.Settling
import BusinessModel.Proofs.Yaml.Token.Quoted
import BusinessModel.Proofs.Yaml.Token.Plain
import BusinessModel.Proofs.Yaml.Folding
import BusinessModel.Proofs.Yaml.Layout
import BusinessModel.Proofs.Yaml.Readable
import BusinessModel.Proofs.Yaml.Token.Fetching
import BusinessModel.Proofs.Yaml.Token.Layout
import BusinessModel.Proofs.Yaml.Token.Course
import BusinessModel.Proofs.Yaml.Datum
import BusinessModel.Proofs.Yaml.Writing
import BusinessModel.Proofs.Yaml.Placed
import BusinessModel.Proofs.Yaml.Event
import BusinessModel.Proofs.Yaml.Node
import BusinessModel.Proofs.Yaml.Loaded
import BusinessModel.Proofs.Document.Exact
