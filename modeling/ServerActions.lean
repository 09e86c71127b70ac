import ServerActions.Main
import ServerActions.Proofs.Declaration.Grammar
import ServerActions.Proofs.Declaration.Scanning
import ServerActions.Proofs.ActionsModule.Scanning
import ServerActions.Proofs.ActionsModule.Decoding
import ServerActions.Proofs.Generation.Rendering
import ServerActions.Proofs.FileTree.Reading
import ServerActions.Proofs.Generation.Rescan
import ServerActions.Proofs.Path.Pieces
import ServerActions.Proofs.Path.Components
import ServerActions.Proofs.Path.Steps
import ServerActions.Proofs.FileTree.Walking
import ServerActions.Proofs.FileTree.Growing
import ServerActions.Proofs.FileTree.Targets
import ServerActions.Proofs.FileTree.Rewriting
import ServerActions.Proofs.Generation.Writing
import ServerActions.Proofs.Generation.Operations
import ServerActions.Proofs.Generation.Repetition
import ServerActions.Proofs.CommandLine.Messages
import ServerActions.Proofs.CommandLine.Stages
import ServerActions.Proofs.CommandLine.Transactions
import ServerActions.Proofs.CommandLine.Agreement
import ServerActions.Proofs.Path.Places
import ServerActions.Proofs.ActionsModule.Specifiers
import ServerActions.Proofs.Generation.Sources
import ServerActions.Proofs.Generation.Leniency
import ServerActions.Proofs.Declaration.Layout
import ServerActions.Proofs.Declaration.Appending
import ServerActions.Proofs.Generation.Reordering
import ServerActions.Proofs.CommandLine.Simulation
import ServerActions.Proofs.CommandLine.Verbosity
import ServerActions.Proofs.CommandLine.Values
import ServerActions.Proofs.Generation.Reached
import ServerActions.Proofs.CommandLine.Tracing
import ServerActions.Proofs.FileTree.Within
import ServerActions.Proofs.Generation.Commuting
import ServerActions.Proofs.FileTree.Passing
import ServerActions.Proofs.Generation.Default
import ServerActions.Proofs.Resolution.Contributions
import ServerActions.Proofs.Resolution.Appending
import ServerActions.Proofs.Declaration.Declared
import ServerActions.Proofs.Generation.Outcomes
import ServerActions.Proofs.Json.Grammar
import ServerActions.Proofs.Json.Layout
import ServerActions.Proofs.Json.Numbers
import ServerActions.Proofs.Json.Quoted
import ServerActions.Proofs.Json.Decoding
import ServerActions.Proofs.Json.Printing
import ServerActions.Proofs.Json.Reports
import ServerActions.Proofs.Resolution.Repetition
import ServerActions.Proofs.ActionsModule.Placement
import ServerActions.Proofs.Toml.Grammar
import ServerActions.Proofs.Toml.Layout
import ServerActions.Proofs.Toml.Quoted
import ServerActions.Proofs.Toml.Numbers
import ServerActions.Proofs.Toml.Scalars
import ServerActions.Proofs.Toml.Tables
import ServerActions.Proofs.Toml.Values
import ServerActions.Proofs.Toml.Lines
import ServerActions.Proofs.Toml.Documents
import ServerActions.Proofs.Toml.Roles
import ServerActions.Proofs.Toml.Definitions
import ServerActions.Proofs.Toml.Sections
import ServerActions.Proofs.Settings.Fields
import ServerActions.Proofs.Settings.Overriding
import ServerActions.Proofs.Settings.Spellings
import ServerActions.Proofs.CommandLine.Spellings
import ServerActions.Proofs.Declaration.Renaming
import ServerActions.Proofs.CommandLine.SettingsFile
import ServerActions.Proofs.Toml.Places
import ServerActions.Proofs.Settings.Typing
import ServerActions.Proofs.Declaration.Joining
import ServerActions.Proofs.Resolution.WellFormed
