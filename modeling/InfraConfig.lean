import InfraConfig.Block.Attribute
import InfraConfig.Block.Basic
import InfraConfig.Block.Check
import InfraConfig.Block.Placement
import InfraConfig.Calendar.Date
import InfraConfig.Calendar.Duration
import InfraConfig.Calendar.Layout
import InfraConfig.Calendar.Timestamp
import InfraConfig.CommandLine.Arguments
import InfraConfig.CommandLine.Help
import InfraConfig.CommandLine.Run
import InfraConfig.Datum
import InfraConfig.Decimal.Binary64
import InfraConfig.Decimal.Reader
import InfraConfig.Decimal.Shortest
import InfraConfig.Encoding.Base64
import InfraConfig.Encoding.Bytes
import InfraConfig.Encoding.Digests
import InfraConfig.Entries
import InfraConfig.Evaluation
import InfraConfig.Expansion
import InfraConfig.FilePath
import InfraConfig.Files.Calls
import InfraConfig.Files.Table
import InfraConfig.Functions.Addresses
import InfraConfig.Functions.Texts
import InfraConfig.Functions.Conversions
import InfraConfig.Functions.Library
import InfraConfig.Functions.Lists
import InfraConfig.Functions.Numbers
import InfraConfig.Functions.Signature
import InfraConfig.Functions.Times
import InfraConfig.Instances
import InfraConfig.Json.Reader
import InfraConfig.Json.Value
import InfraConfig.Json.Writer
import InfraConfig.Main
import InfraConfig.ModuleInstance
import InfraConfig.ModuleRun.Basic
import InfraConfig.ModuleRun.Bindings
import InfraConfig.ModuleRun.Calls
import InfraConfig.ModuleRun.Evaluate
import InfraConfig.ModuleSource
import InfraConfig.Network.Address
import InfraConfig.Network.Prefix
import InfraConfig.Number
import InfraConfig.Power
import InfraConfig.Project
import InfraConfig.Proofs.EntryLaws
import InfraConfig.Proofs.FreePaths
import InfraConfig.Proofs.Persistence
import InfraConfig.Reference
import InfraConfig.Regex.CharClass
import InfraConfig.Regex.Pattern
import InfraConfig.Regex.Reader
import InfraConfig.Scope
import InfraConfig.ScopePath
import InfraConfig.Settings
import InfraConfig.SourceRange
import InfraConfig.Sources.Directory
import InfraConfig.Sources.Document
import InfraConfig.Sources.FileTree
import InfraConfig.Sources.Loader
import InfraConfig.Sources.Native
import InfraConfig.Sources.Variables
import InfraConfig.Syntax.Alike
import InfraConfig.Syntax.Body
import InfraConfig.Syntax.Expr
import InfraConfig.Syntax.Lexical
import InfraConfig.Syntax.Literal
import InfraConfig.Syntax.Markup
import InfraConfig.Syntax.Reader
import InfraConfig.Syntax.Template
import InfraConfig.Text.Case
import InfraConfig.Text.Category
import InfraConfig.Text.Escape
import InfraConfig.Text.Property
import InfraConfig.Text.Quoted
import InfraConfig.Text.RangeTable
import InfraConfig.Text.Script
import InfraConfig.Text.Search
import InfraConfig.Toml.Basic
import InfraConfig.Toml.Reader
import InfraConfig.Toml.Scalar
import InfraConfig.Value
import InfraConfig.Proofs.ScopeLaws
import InfraConfig.Proofs.DependencyOrder
import InfraConfig.Proofs.LocalPasses
import InfraConfig.Proofs.ArenaLaws
import InfraConfig.Proofs.PlainModules
import InfraConfig.Proofs.LocalsInOrder
import InfraConfig.Proofs.Changes
import InfraConfig.Proofs.PlacementChanges
import InfraConfig.Proofs.ExpansionChanges
import InfraConfig.Proofs.RunChanges
import InfraConfig.Proofs.Views
import InfraConfig.Proofs.FixedPoint
import InfraConfig.Proofs.Convergence
import InfraConfig.Proofs.Fates
import InfraConfig.Proofs.Evaluations
import InfraConfig.Proofs.ExpandedTrees
import InfraConfig.Proofs.Renderings
import InfraConfig.Proofs.ModuleTrees
import InfraConfig.Proofs.BlockNames
import InfraConfig.Proofs.StartedCalls
import InfraConfig.Proofs.OpenedCalls
import InfraConfig.Proofs.FinishedCalls
import InfraConfig.Proofs.CalledBlocks
import InfraConfig.Proofs.RenderedContents
import InfraConfig.Proofs.Expansions
import InfraConfig.Proofs.EnclosingCalls
import InfraConfig.Proofs.NestedEvaluations
import InfraConfig.Proofs.WrittenCalls
import InfraConfig.Proofs.Termination
import InfraConfig.Proofs.FreeVariables
import InfraConfig.Proofs.SettledScopes
import InfraConfig.Proofs.KnownResults
import InfraConfig.Proofs.ModuleScopes
import InfraConfig.Proofs.LoadedModules
import InfraConfig.Proofs.FilePlaces
import InfraConfig.Proofs.FileRequests
import InfraConfig.Proofs.AskingSteps
import InfraConfig.Proofs.FileKeeping
import InfraConfig.Proofs.FreshFiles
import InfraConfig.Proofs.FileReads
import InfraConfig.Proofs.OtherLoaders
import InfraConfig.Proofs.FilesReadOnce
import InfraConfig.Proofs.TolerantRuns
import InfraConfig.Proofs.RemovedFiles
import InfraConfig.Proofs.TolerantProjects
import InfraConfig.Proofs.OrdinaryCalls
import InfraConfig.Proofs.InlinedCalls
import InfraConfig.Proofs.ScopeWrites
import InfraConfig.Proofs.MergedScopes
import InfraConfig.Proofs.InstanceBindings
import InfraConfig.Proofs.InstanceScopes
import InfraConfig.Proofs.LayeredExpansions
import InfraConfig.Proofs.LayeredRuns
import InfraConfig.Proofs.InnermostInstances
import InfraConfig.Proofs.LayeredPhases
import InfraConfig.Proofs.TameSteps
import InfraConfig.Proofs.RenderedTrees
import InfraConfig.Proofs.RepeatedExpansion
import InfraConfig.Proofs.VariableWrites
import InfraConfig.Proofs.RootVariables
import InfraConfig.Proofs.VariablePrecedence
import InfraConfig.Proofs.TomlTables
import InfraConfig.Proofs.CommandSources
import InfraConfig.Proofs.SourceDirectories
import InfraConfig.Proofs.BlockCopies
import InfraConfig.Proofs.InstanceGroups
import InfraConfig.Proofs.CountedInstances
import InfraConfig.Proofs.KeyTexts
import InfraConfig.Proofs.ElementInstances
import InfraConfig.Proofs.InjectedValues
import InfraConfig.Proofs.ConfinedSteps
import InfraConfig.Proofs.UnrolledTrees
import InfraConfig.Proofs.UnrolledDynamics
import InfraConfig.Proofs.LabelKeys
import InfraConfig.Proofs.InstanceAddresses
import InfraConfig.Proofs.PrintedNames
import InfraConfig.Proofs.GatheredInstances
import InfraConfig.Proofs.DataRoundTrips
import InfraConfig.Proofs.NumberConversions
import InfraConfig.Proofs.ValueEquality
import InfraConfig.Proofs.AttributeChecks
import InfraConfig.Proofs.FunctionCalls
import InfraConfig.Proofs.Binary64Order
import InfraConfig.Proofs.NumericFunctions
import InfraConfig.Proofs.AddressTexts
import InfraConfig.Proofs.AddressPrefixes
import InfraConfig.Proofs.AddressHosts
import InfraConfig.Proofs.Substrings
import InfraConfig.Proofs.Timestamps
import InfraConfig.Proofs.Binary64Sums
import InfraConfig.Proofs.TimestampFunctions
import InfraConfig.Proofs.Progressions
import InfraConfig.Proofs.SeparatedTexts
import InfraConfig.Proofs.ListSets
import InfraConfig.Proofs.FormattedTexts
import InfraConfig.Proofs.SkippedInlining
import InfraConfig.Proofs.JsonParts
import InfraConfig.Proofs.JsonReadings
import InfraConfig.Proofs.RelativePlaces
import InfraConfig.Proofs.SourceLines
