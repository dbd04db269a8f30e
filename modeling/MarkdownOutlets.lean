import MarkdownOutlets.Cli.Command
import MarkdownOutlets.Cli.Grammar
import MarkdownOutlets.Cli.Invocation
import MarkdownOutlets.Cli.Logging
import MarkdownOutlets.Cli.Report
import MarkdownOutlets.Composition.Compose
import MarkdownOutlets.Composition.Engine
import MarkdownOutlets.Composition.Process
import MarkdownOutlets.Composition.Session
import MarkdownOutlets.Config.Bundle
import MarkdownOutlets.Config.Configuration
import MarkdownOutlets.Config.Keywords
import MarkdownOutlets.Config.Plan
import MarkdownOutlets.Config.Schema
import MarkdownOutlets.Config.SlotArgument
import MarkdownOutlets.Config.SlotName
import MarkdownOutlets.Data.Json.Printer
import MarkdownOutlets.Data.Json.Reader
import MarkdownOutlets.Data.Scalar
import MarkdownOutlets.Data.Value
import MarkdownOutlets.Data.Yaml.Atom
import MarkdownOutlets.Data.Yaml.Layout
import MarkdownOutlets.Data.Yaml.Reader
import MarkdownOutlets.Document.Basic
import MarkdownOutlets.Document.Invalid
import MarkdownOutlets.Document.Options
import MarkdownOutlets.Document.OptionsReading
import MarkdownOutlets.Document.Reading
import MarkdownOutlets.Files.Program
import MarkdownOutlets.Files.Reading
import MarkdownOutlets.Files.Tree
import MarkdownOutlets.Files.Writing
import MarkdownOutlets.Main
import MarkdownOutlets.Number.Binary64
import MarkdownOutlets.Number.Numeral
import MarkdownOutlets.Number.Shortest
import MarkdownOutlets.Path.Basic
import MarkdownOutlets.Problem.Basic
import MarkdownOutlets.Problem.Failure
import MarkdownOutlets.Source.Cache
import MarkdownOutlets.Source.Files
import MarkdownOutlets.Source.Memory
import MarkdownOutlets.Template.Basic
import MarkdownOutlets.Template.Marker
import MarkdownOutlets.Template.Region
import MarkdownOutlets.Text.Basic
import MarkdownOutlets.Text.Blank
import MarkdownOutlets.Text.Digit
import MarkdownOutlets.Text.Printable
import MarkdownOutlets.Text.Quoted
import MarkdownOutlets.Text.Utf8
import MarkdownOutlets.Tracker.Basic
import MarkdownOutlets.Tracker.Family
import MarkdownOutlets.Composition.Unchecked
import MarkdownOutlets.Problem.Construction
import MarkdownOutlets.Proofs.Process.Interleaving
import MarkdownOutlets.Proofs.Composition.Account
import MarkdownOutlets.Proofs.Composition.EngineAccount
import MarkdownOutlets.Proofs.Composition.ActiveChain
import MarkdownOutlets.Proofs.Composition.Parallel
import MarkdownOutlets.Proofs.Process.Monitor
import MarkdownOutlets.Proofs.Composition.Lookups
import MarkdownOutlets.Proofs.Composition.CacheOverlay
import MarkdownOutlets.Proofs.Process.Cut
import MarkdownOutlets.Proofs.Composition.HardPolicy
import MarkdownOutlets.Proofs.Template.CodeBlocks
import MarkdownOutlets.Proofs.Template.Scans
import MarkdownOutlets.Proofs.Composition.CheckedInput
import MarkdownOutlets.Proofs.Composition.Substitution
import MarkdownOutlets.Proofs.Process.Reporting
import MarkdownOutlets.Proofs.Composition.Validation
import MarkdownOutlets.Proofs.Composition.Dues
import MarkdownOutlets.Proofs.Composition.LivePlaces
import MarkdownOutlets.Proofs.Composition.LiveSlots
import MarkdownOutlets.Proofs.Config.Schema
import MarkdownOutlets.Proofs.Config.SlotNames
import MarkdownOutlets.Proofs.Config.OptionLayers
import MarkdownOutlets.Proofs.Files.Programs
import MarkdownOutlets.Proofs.Config.Loading
import MarkdownOutlets.Proofs.Path.NormalForm
import MarkdownOutlets.Proofs.Config.Configuration
import MarkdownOutlets.Proofs.Config.Grammar
import MarkdownOutlets.Proofs.Config.Keywords
import MarkdownOutlets.Proofs.Composition.SourcePaths
import MarkdownOutlets.Proofs.Config.Requests
import MarkdownOutlets.Proofs.Composition.EnteredOutlets
import MarkdownOutlets.Proofs.Source.CanonicalPaths
import MarkdownOutlets.Proofs.Composition.FileHosts
import MarkdownOutlets.Proofs.Process.Quiet
import MarkdownOutlets.Proofs.Template.Splice
import MarkdownOutlets.Proofs.Composition.ListedOutlets
import MarkdownOutlets.Proofs.Tracker.Families
import MarkdownOutlets.Proofs.Tracker.Independence
import MarkdownOutlets.Proofs.Source.MemoryPaths
import MarkdownOutlets.Proofs.Template.Replacement
import MarkdownOutlets.Proofs.Composition.CyclicChains
import MarkdownOutlets.Proofs.Process.Stopping
import MarkdownOutlets.Proofs.Composition.DepthLimit
import MarkdownOutlets.Proofs.Document.WellFormed
import MarkdownOutlets.Proofs.Config.Precedence
import MarkdownOutlets.Proofs.Composition.Additions
import MarkdownOutlets.Proofs.Composition.WrappedSources
import MarkdownOutlets.Proofs.Template.AppendedText
import MarkdownOutlets.Proofs.Composition.ResolvedPaths
import MarkdownOutlets.Proofs.Files.AtomicWrites
import MarkdownOutlets.Proofs.Source.ResolvedAlike
import MarkdownOutlets.Proofs.Document.MappedPaths
import MarkdownOutlets.Proofs.Cli.Arguments
import MarkdownOutlets.Proofs.Files.Systems
import MarkdownOutlets.Proofs.Cli.Composing
