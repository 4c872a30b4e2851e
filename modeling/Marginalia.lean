import Marginalia.Command.Arguments
import Marginalia.Command.Run
import Marginalia.Command.Switch
import Marginalia.Comment.Basic
import Marginalia.Comment.Filter
import Marginalia.Comment.Map
import Marginalia.Comment.Rules
import Marginalia.Comment.Stream
import Marginalia.Config.Basic
import Marginalia.Config.Fault
import Marginalia.Config.Load
import Marginalia.Console
import Marginalia.Decimal.Binary
import Marginalia.Decimal.Round
import Marginalia.Decimal.Shortest
import Marginalia.Files.Batch
import Marginalia.Files.Bundle
import Marginalia.Files.Discovery
import Marginalia.Files.FileSystem
import Marginalia.Files.Output
import Marginalia.Files.Path
import Marginalia.Journal
import Marginalia.Link.Argument
import Marginalia.Link.Error
import Marginalia.Link.Pass
import Marginalia.Link.Placement
import Marginalia.Main
import Marginalia.Pattern.Basic
import Marginalia.Pattern.Escape
import Marginalia.Pattern.Expr
import Marginalia.Pattern.Fault
import Marginalia.Pattern.Group
import Marginalia.Pattern.Match
import Marginalia.Pattern.Parser
import Marginalia.Pattern.Replace
import Marginalia.Pattern.Spot
import Marginalia.Pattern.Token
import Marginalia.Pattern.Trial
import Marginalia.Position
import Marginalia.Report
import Marginalia.Source.Error
import Marginalia.Source.Interchange
import Marginalia.Source.Link
import Marginalia.Source.Outline
import Marginalia.Source.ParseTree
import Marginalia.Source.Record
import Marginalia.Source.Rows
import Marginalia.Source.Stats
import Marginalia.Syntax.Policy
import Marginalia.Syntax.Tree
import Marginalia.Text.Blank
import Marginalia.Text.Capital
import Marginalia.Text.Case
import Marginalia.Text.CharName
import Marginalia.Text.Digit
import Marginalia.Text.Identifier
import Marginalia.Text.Printable
import Marginalia.Text.Quoted
import Marginalia.Text.Ranges
import Marginalia.Text.Slice
import Marginalia.Text.Split
import Marginalia.Text.Utf8
import Marginalia.Text.Word
import Marginalia.Value.Basic
import Marginalia.Value.Json
import Marginalia.Value.Key
import Marginalia.Proofs.Syntax.Graft
import Marginalia.Proofs.Link.Placing
import Marginalia.Proofs.Link.Step
import Marginalia.Proofs.Link.Frontier
import Marginalia.Proofs.Link.Progress
import Marginalia.Proofs.Comment.Ledger
import Marginalia.Proofs.Link.Conservation
import Marginalia.Proofs.Link.Frame
import Marginalia.Proofs.Pattern.Cuts
import Marginalia.Proofs.Comment.Delimiters
import Marginalia.Proofs.Comment.Annotations
import Marginalia.Proofs.Comment.Completeness
import Marginalia.Proofs.Comment.Idempotence
import Marginalia.Proofs.Comment.Order
import Marginalia.Proofs.Syntax.SourceOrder
import Marginalia.Proofs.Link.Landing
import Marginalia.Proofs.Link.Visit
import Marginalia.Proofs.Link.Course
import Marginalia.Proofs.Link.Grouping
import Marginalia.Proofs.Link.Above
import Marginalia.Proofs.Link.Itinerary
import Marginalia.Proofs.Link.Orderly
import Marginalia.Proofs.Link.Precedence
import Marginalia.Proofs.Syntax.Preorder
import Marginalia.Proofs.Source.Cursor
import Marginalia.Proofs.Source.Lines
import Marginalia.Proofs.Source.Records
import Marginalia.Proofs.Files.Storage
import Marginalia.Proofs.Source.Pruning
import Marginalia.Proofs.Syntax.History
import Marginalia.Proofs.Source.Rows
import Marginalia.Proofs.Source.Coherence
import Marginalia.Proofs.Link.Adjacency
import Marginalia.Proofs.Source.Entries
import Marginalia.Proofs.Link.Eligibility
import Marginalia.Proofs.Link.Sequence
import Marginalia.Proofs.Syntax.Shift
import Marginalia.Proofs.Comment.Shift
import Marginalia.Proofs.Link.InStep
import Marginalia.Proofs.Link.Translation
import Marginalia.Proofs.Files.Paths
import Marginalia.Proofs.Files.Isolation
import Marginalia.Proofs.Config.Faults
import Marginalia.Proofs.Config.Strictness
import Marginalia.Proofs.Files.Accounting
import Marginalia.Proofs.Command.Output
import Marginalia.Proofs.Pattern.Places
import Marginalia.Proofs.Pattern.Reading
import Marginalia.Proofs.Pattern.Rewriting
import Marginalia.Proofs.Comment.Deletion
import Marginalia.Proofs.Pattern.Pieces
import Marginalia.Proofs.Comment.LeadingProse
import Marginalia.Proofs.Comment.PullUp
import Marginalia.Proofs.Comment.Spelling
import Marginalia.Proofs.Comment.Shelter
import Marginalia.Proofs.Comment.Rows
import Marginalia.Proofs.Comment.TypeRemoval
import Marginalia.Proofs.Comment.Descriptions
import Marginalia.Proofs.Files.Discovery
import Marginalia.Proofs.Syntax.Arranged
import Marginalia.Proofs.Link.Floating
import Marginalia.Proofs.Link.AcrossLines
import Marginalia.Proofs.Link.Consultation
import Marginalia.Proofs.Link.Snapshot
import Marginalia.Proofs.Pattern.Alike
import Marginalia.Proofs.Comment.Shells
