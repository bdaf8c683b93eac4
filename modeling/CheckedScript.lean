import CheckedScript.CommandLine
import CheckedScript.CommandLine.Arguments
import CheckedScript.Compiler
import CheckedScript.Config
import CheckedScript.Config.Loading
import CheckedScript.Config.LogPath
import CheckedScript.Config.Overlay
import CheckedScript.Config.Reader
import CheckedScript.Error
import CheckedScript.FileTree
import CheckedScript.Fragment
import CheckedScript.Imports
import CheckedScript.Json
import CheckedScript.Log
import CheckedScript.Main
import CheckedScript.Path
import CheckedScript.Pattern
import CheckedScript.Position
import CheckedScript.Program
import CheckedScript.Program.Builder
import CheckedScript.Program.Dump
import CheckedScript.Program.Grammar
import CheckedScript.Proofs.Access
import CheckedScript.Proofs.Aliases
import CheckedScript.Proofs.Blocks
import CheckedScript.Proofs.Bounds
import CheckedScript.Proofs.Building
import CheckedScript.Proofs.Builds
import CheckedScript.Proofs.Checks
import CheckedScript.Proofs.Code
import CheckedScript.Proofs.Comments
import CheckedScript.Proofs.Compilation
import CheckedScript.Proofs.Concatenation
import CheckedScript.Proofs.Constructors
import CheckedScript.Proofs.Derivation
import CheckedScript.Proofs.Emission
import CheckedScript.Proofs.ErrorPositions
import CheckedScript.Proofs.Files
import CheckedScript.Proofs.Fragments
import CheckedScript.Proofs.Grouping
import CheckedScript.Proofs.Guards
import CheckedScript.Proofs.HelperNames
import CheckedScript.Proofs.Interleaving
import CheckedScript.Proofs.Invocations
import CheckedScript.Proofs.Labels
import CheckedScript.Proofs.Language
import CheckedScript.Proofs.Layout
import CheckedScript.Proofs.Leniency
import CheckedScript.Proofs.Lexing
import CheckedScript.Proofs.Literals
import CheckedScript.Proofs.Messages
import CheckedScript.Proofs.Nesting
import CheckedScript.Proofs.Overlays
import CheckedScript.Proofs.Overwriting
import CheckedScript.Proofs.Parameters
import CheckedScript.Proofs.Paths
import CheckedScript.Proofs.Pattern
import CheckedScript.Proofs.Printing
import CheckedScript.Proofs.Quotes
import CheckedScript.Proofs.Records
import CheckedScript.Proofs.Regex
import CheckedScript.Proofs.Regions
import CheckedScript.Proofs.Relocation
import CheckedScript.Proofs.Repetition
import CheckedScript.Proofs.Reports
import CheckedScript.Proofs.Resolution
import CheckedScript.Proofs.Result
import CheckedScript.Proofs.Simulation
import CheckedScript.Proofs.SourceErrors
import CheckedScript.Proofs.Spelling
import CheckedScript.Proofs.Statuses
import CheckedScript.Proofs.Stepping
import CheckedScript.Proofs.Terminators
import CheckedScript.Proofs.Tree
import CheckedScript.Proofs.WellFormed
import CheckedScript.Regex
import CheckedScript.Regex.Fault
import CheckedScript.Regex.Reader
import CheckedScript.Run
import CheckedScript.Script
import CheckedScript.Script.Guard
import CheckedScript.Script.Validity
import CheckedScript.Text.Alphanumeric
import CheckedScript.Text.Blank
import CheckedScript.Token
import CheckedScript.Token.Layout
import CheckedScript.Token.Lexing
import CheckedScript.Token.Rule
import CheckedScript.Toml
import CheckedScript.Toml.Reader
import CheckedScript.Toml.Scalar
import CheckedScript.Toml.Writer
