import RuleCatalogue.Calendar
import RuleCatalogue.CommandLine.Failure
import RuleCatalogue.CommandLine.Help
import RuleCatalogue.CommandLine.Request
import RuleCatalogue.CommandLine.Run
import RuleCatalogue.CommandLine.Summary
import RuleCatalogue.Decimal
import RuleCatalogue.Encoding.Basic
import RuleCatalogue.Encoding.Codec
import RuleCatalogue.Environment
import RuleCatalogue.Event
import RuleCatalogue.FileTree
import RuleCatalogue.Files
import RuleCatalogue.Host
import RuleCatalogue.Json
import RuleCatalogue.Line
import RuleCatalogue.Log.Logbook
import RuleCatalogue.Log.Record
import RuleCatalogue.Main
import RuleCatalogue.Markup
import RuleCatalogue.Merge
import RuleCatalogue.Path
import RuleCatalogue.Payload
import RuleCatalogue.Text.Character
import RuleCatalogue.Proofs.Catalogue
import RuleCatalogue.Proofs.CommandLine.Show
import RuleCatalogue.Proofs.Decimal
import RuleCatalogue.Proofs.DrawnTable
import RuleCatalogue.Proofs.Fallible
import RuleCatalogue.Proofs.Json
import RuleCatalogue.Proofs.Json.OneLine
import RuleCatalogue.Proofs.Listing
import RuleCatalogue.Proofs.Machine
import RuleCatalogue.Proofs.Markup
import RuleCatalogue.Proofs.Merge
import RuleCatalogue.Proofs.Path
import RuleCatalogue.Proofs.Payload
import RuleCatalogue.Proofs.Report
import RuleCatalogue.Proofs.Serialization
import RuleCatalogue.Proofs.Session.Boundary
import RuleCatalogue.Proofs.Session.Description
import RuleCatalogue.Proofs.Session.ParameterTable
import RuleCatalogue.Proofs.Session.Registers
import RuleCatalogue.Proofs.Session.Step
import RuleCatalogue.Proofs.Settings.Assigned
import RuleCatalogue.Proofs.Settings.Overlay
import RuleCatalogue.Proofs.Settings.PathOrder
import RuleCatalogue.Proofs.Settings.Placement
import RuleCatalogue.Proofs.Settings.Precedence
import RuleCatalogue.Proofs.Settings.Validation
import RuleCatalogue.Proofs.Table
import RuleCatalogue.Proofs.Text.Confined
import RuleCatalogue.Proofs.Text.Substring
import RuleCatalogue.Proofs.Toml.Document
import RuleCatalogue.Proofs.Toml.Reading
import RuleCatalogue.Proofs.Toml.Value
import RuleCatalogue.Proofs.Value
import RuleCatalogue.Proofs.Yaml.Catalogue
import RuleCatalogue.Proofs.Yaml.Document
import RuleCatalogue.Proofs.Yaml.DoubleQuoted
import RuleCatalogue.Proofs.Yaml.Plain
import RuleCatalogue.Proofs.Yaml.Quoted
import RuleCatalogue.Proofs.Yaml.Scan
import RuleCatalogue.Proofs.Yaml.Token
import RuleCatalogue.Proofs.Yaml.Value
import RuleCatalogue.ReadError
import RuleCatalogue.Report
import RuleCatalogue.RuleEntry
import RuleCatalogue.Serialization
import RuleCatalogue.Session
import RuleCatalogue.Settings.Layers
import RuleCatalogue.Settings.Validation
import RuleCatalogue.Source
import RuleCatalogue.Table
import RuleCatalogue.Template
import RuleCatalogue.Text.Substring
import RuleCatalogue.Toml.Reader
import RuleCatalogue.Toml.Writer
import RuleCatalogue.Value
import RuleCatalogue.Yaml.Node
import RuleCatalogue.Yaml.Plain
import RuleCatalogue.Yaml.Reader
import RuleCatalogue.Yaml.Text
import RuleCatalogue.Yaml.Token
import RuleCatalogue.Yaml.Tree
import RuleCatalogue.Yaml.Writer
import RuleCatalogue.Proofs.Session.Frame
import RuleCatalogue.Proofs.Session.Titles
import RuleCatalogue.Proofs.FileTree
import RuleCatalogue.Proofs.Files
import RuleCatalogue.Proofs.Settings.RootedPaths
import RuleCatalogue.Proofs.CommandLine.Reading
import RuleCatalogue.Proofs.CommandLine.Parse
import RuleCatalogue.Proofs.Markup.Tags
import RuleCatalogue.Proofs.Markup.Emphasis
import RuleCatalogue.Proofs.Markup.Words
import RuleCatalogue.Proofs.Session.Paragraphs
import RuleCatalogue.Proofs.Merge.Regrouping
import RuleCatalogue.Proofs.Encoding.Utf8
import RuleCatalogue.Proofs.Source
import RuleCatalogue.Proofs.Settings.Resolution
import RuleCatalogue.Proofs.Settings.Exactness
import RuleCatalogue.Proofs.Yaml.Causes
import RuleCatalogue.Proofs.Yaml.Grammar
import RuleCatalogue.Proofs.Yaml.Reading
import RuleCatalogue.Proofs.Serialization.Failure
import RuleCatalogue.Proofs.Pool
import RuleCatalogue.Proofs.FileReplacement
import RuleCatalogue.Proofs.Columns
import RuleCatalogue.Proofs.Log.Scopes
import RuleCatalogue.Proofs.Log.Line
import RuleCatalogue.Proofs.CommandLine.Printing
import RuleCatalogue.Proofs.Encoding.Codec
import RuleCatalogue.Proofs.Log
