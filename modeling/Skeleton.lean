import Skeleton.Text.Blank
import Skeleton.Text.Digits
import Skeleton.Dictionary
import Skeleton.Double.Basic
import Skeleton.Double.Shortest
import Skeleton.Double.Reading
import Skeleton.Value.Basic
import Skeleton.Json
import Skeleton.Text.LetterCase
import Skeleton.Text.Quoted
import Skeleton.Text.Words
import Skeleton.Condition.Check
import Skeleton.Condition.Eval
import Skeleton.Yaml.Writer
import Skeleton.Template.Render
import Skeleton.Yaml.Token
import Skeleton.Yaml.Quoted
import Skeleton.Yaml.Plain
import Skeleton.Yaml.Block
import Skeleton.Yaml.Lexer
import Skeleton.Yaml.Node
import Skeleton.Yaml.Tree
import Skeleton.Yaml.Data
import Skeleton.Yaml.Mismatch
import Skeleton.Yaml.Untyped
import Skeleton.Value.Yaml
import Skeleton.Yaml.Decoder
import Skeleton.Draft.Reading
import Skeleton.Path
import Skeleton.Disk.Basic
import Skeleton.Disk.Fault
import Skeleton.Disk.Lookup
import Skeleton.Disk.Operations
import Skeleton.Fault
import Skeleton.Outline.Basic
import Skeleton.Blueprint.Loading
import Skeleton.Plan.Basic
import Skeleton.Plan.Preview
import Skeleton.Execution.Basic
import Skeleton.Execution.Text
import Skeleton.Hook.Resolution
import Skeleton.Command.Variables
import Skeleton.Hook.Text
import Skeleton.Text.Utf8
import Skeleton.Hook.Running
import Skeleton.Command.Arguments
import Skeleton.Command.Running
import Skeleton.Shell.Lexer
import Skeleton.Shell.Parser
import Skeleton.Shell.Expansion
import Skeleton.Shell.Printf
import Skeleton.Shell.Test
import Skeleton.Shell.Tools
import Skeleton.Shell.Starting
import Skeleton.Main
import Skeleton.Proofs.Disk.Entries
import Skeleton.Proofs.Disk.Walk
import Skeleton.Proofs.Disk.Growth
import Skeleton.Proofs.Disk.Operations
import Skeleton.Proofs.Execution.Steps
import Skeleton.Proofs.Execution.Trace
import Skeleton.Proofs.Execution.Rollback
import Skeleton.Proofs.Disk.Wear
import Skeleton.Proofs.Execution.Links
import Skeleton.Proofs.Path
import Skeleton.Proofs.Plan.Shape
import Skeleton.Proofs.Disk.Lexical
import Skeleton.Proofs.Execution.Effect
import Skeleton.Proofs.Execution.Additions
import Skeleton.Proofs.Execution.Copies
import Skeleton.Proofs.Execution.Halting
import Skeleton.Proofs.Execution.Fresh
import Skeleton.Proofs.Condition.Kinds
import Skeleton.Proofs.Condition.Guards
import Skeleton.Proofs.Condition.Grammar
import Skeleton.Proofs.Condition.Parsing
import Skeleton.Proofs.Context
import Skeleton.Proofs.Command.Kinds
import Skeleton.Proofs.Plan.Gates
import Skeleton.Proofs.Blueprint.Inlining
import Skeleton.Proofs.Plan.Preorder
import Skeleton.Proofs.Blueprint.Checked
import Skeleton.Proofs.Blueprint.Cycles
import Skeleton.Proofs.Blueprint.Modes
import Skeleton.Proofs.Command.Applying
import Skeleton.Proofs.VarPath
import Skeleton.Proofs.Template.Composition
import Skeleton.Proofs.Plan.Pruning
import Skeleton.Proofs.Plan.Mentions
import Skeleton.Proofs.Path.Inside
import Skeleton.Proofs.Hook.Resolution
import Skeleton.Proofs.Execution.Settling
import Skeleton.Proofs.Execution.Repetition
import Skeleton.Proofs.Condition.Sources
import Skeleton.Proofs.Condition.Height
import Skeleton.Proofs.Template.Faults
import Skeleton.Proofs.Template.Listing
import Skeleton.Proofs.Template.Filtering
import Skeleton.Proofs.Dictionary
import Skeleton.Proofs.Value.Conversion
import Skeleton.Proofs.Command.Given
import Skeleton.Proofs.Command.Precedence
import Skeleton.Proofs.Text.Spans
import Skeleton.Proofs.Text.Numerals
import Skeleton.Proofs.Double.Shortest
import Skeleton.Proofs.Double.Layout
import Skeleton.Proofs.Yaml.Decoding
import Skeleton.Proofs.Yaml.Keys
import Skeleton.Proofs.Yaml.Scalars
import Skeleton.Proofs.Yaml.Places
import Skeleton.Proofs.Yaml.PlainScalars
import Skeleton.Proofs.Yaml.QuotedScalars
import Skeleton.Proofs.Yaml.BlockScalars
import Skeleton.Proofs.Yaml.Lexing
import Skeleton.Proofs.Yaml.ScalarTokens
import Skeleton.Proofs.Yaml.CollectionTokens
import Skeleton.Proofs.Yaml.NumberTexts
import Skeleton.Proofs.Yaml.WrittenTokens
import Skeleton.Proofs.Yaml.WrittenDocument
import Skeleton.Proofs.Yaml.Parsing
import Skeleton.Proofs.Yaml.WrittenNodes
import Skeleton.Proofs.Double.Nearest
import Skeleton.Proofs.Double.Reading
import Skeleton.Proofs.Yaml.NumberMeanings
import Skeleton.Proofs.Value.Parts
import Skeleton.Proofs.Value.LastString
import Skeleton.Proofs.Yaml.RereadNodes
import Skeleton.Proofs.Value.Rereading
import Skeleton.Proofs.Double.Whole
import Skeleton.Proofs.Value.Integers
import Skeleton.Proofs.Value.Equality
import Skeleton.Proofs.Condition.Lookahead
import Skeleton.Proofs.Condition.Blame
import Skeleton.Proofs.Outline.Checking
import Skeleton.Proofs.Path.FileName
import Skeleton.Proofs.Disk.Siblings
import Skeleton.Proofs.Execution.Backups
import Skeleton.Proofs.Outline.Gating
import Skeleton.Proofs.Blueprint.Gating
import Skeleton.Proofs.Context.History
import Skeleton.Proofs.Condition.References
