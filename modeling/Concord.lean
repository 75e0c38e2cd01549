import Concord.Contract.Basic
import Concord.Contract.Document
import Concord.Difference.Basic
import Concord.Difference.Explain
import Concord.Difference.Kind
import Concord.Difference.Registry
import Concord.Digest.Basic
import Concord.Digest.Blake3
import Concord.Engine.Basic
import Concord.Engine.Canonicalizer
import Concord.Engine.Config
import Concord.Engine.Run
import Concord.Engine.Settings
import Concord.Gate.Basic
import Concord.Idiom.Expression
import Concord.Idiom.Position
import Concord.Idiom.Site
import Concord.Json.Basic
import Concord.Json.Decode
import Concord.Json.Reader
import Concord.Machine.Call
import Concord.Machine.Compare
import Concord.Machine.Conversion
import Concord.Machine.Datum
import Concord.Machine.Eval
import Concord.Machine.Exception
import Concord.Machine.Method
import Concord.Machine.Native
import Concord.Machine.Operator
import Concord.Machine.Range
import Concord.Machine.Sequence
import Concord.Machine.State
import Concord.Machine.Statement
import Concord.Machine.Text
import Concord.Machine.Value
import Concord.Number.Binary
import Concord.Number.Decimal
import Concord.Probe.Basic
import Concord.Probe.Battery
import Concord.Probe.Domain
import Concord.Profile.Dependency
import Concord.Profile.Distance
import Concord.Profile.Document
import Concord.Profile.Effect
import Concord.Profile.Extract
import Concord.Profile.Facet
import Concord.Profile.Flow
import Concord.Profile.Recursion
import Concord.Profile.Skeleton
import Concord.Profile.Value
import Concord.Proofs.Difference.Acted
import Concord.Proofs.Difference.Naming
import Concord.Proofs.Digest.Reading
import Concord.Proofs.Engine.Agreement
import Concord.Proofs.Engine.Asked
import Concord.Proofs.Engine.Moves
import Concord.Proofs.Engine.Outcome
import Concord.Proofs.Engine.Repeated
import Concord.Proofs.Engine.Rounds
import Concord.Proofs.Engine.Upheld
import Concord.Proofs.Idiom.Expression
import Concord.Proofs.Idiom.Position
import Concord.Proofs.Idiom.Site
import Concord.Proofs.Json.Decoding
import Concord.Proofs.Json.Reading
import Concord.Proofs.Machine.Abreast
import Concord.Proofs.Machine.AlikeRuns
import Concord.Proofs.Machine.Attain
import Concord.Proofs.Machine.Attained
import Concord.Proofs.Machine.Beside
import Concord.Proofs.Machine.Binding
import Concord.Proofs.Machine.Budget
import Concord.Proofs.Machine.Conduct
import Concord.Proofs.Machine.Effect
import Concord.Proofs.Machine.Elementwise
import Concord.Proofs.Machine.Equivalence
import Concord.Proofs.Machine.Exactness
import Concord.Proofs.Machine.Execution
import Concord.Proofs.Machine.Exit
import Concord.Proofs.Machine.Filled
import Concord.Proofs.Machine.Folding
import Concord.Proofs.Machine.Halting
import Concord.Proofs.Machine.Key
import Concord.Proofs.Machine.Keyed
import Concord.Proofs.Machine.Looping
import Concord.Proofs.Machine.Moment
import Concord.Proofs.Machine.Nesting
import Concord.Proofs.Machine.Pace
import Concord.Proofs.Machine.Parting
import Concord.Proofs.Machine.Plain
import Concord.Proofs.Machine.Predefined
import Concord.Proofs.Machine.Ranking
import Concord.Proofs.Machine.Reached
import Concord.Proofs.Machine.Redoing
import Concord.Proofs.Machine.Renumbered
import Concord.Proofs.Machine.Restored
import Concord.Proofs.Machine.Slicing
import Concord.Proofs.Machine.Sorting
import Concord.Proofs.Machine.Sound
import Concord.Proofs.Machine.Stage
import Concord.Proofs.Machine.Turning
import Concord.Proofs.Machine.Twin
import Concord.Proofs.Machine.Unread
import Concord.Proofs.Machine.Upkeep
import Concord.Proofs.Machine.Variable
import Concord.Proofs.Number.Rounding
import Concord.Proofs.Probe.Input
import Concord.Proofs.Probe.Reflexive
import Concord.Proofs.Probe.Verdict
import Concord.Proofs.Profile.Chain
import Concord.Proofs.Profile.Codec
import Concord.Proofs.Profile.Distance
import Concord.Proofs.Profile.Metric
import Concord.Proofs.Profile.Subsequence
import Concord.Proofs.Profile.Tally
import Concord.Proofs.Source.Bracket
import Concord.Proofs.Source.Composed
import Concord.Proofs.Source.Leading
import Concord.Proofs.Source.Lexing
import Concord.Proofs.Source.Operator
import Concord.Proofs.Source.Piece
import Concord.Proofs.Source.Printable
import Concord.Proofs.Source.Returned
import Concord.Proofs.Source.Spelling
import Concord.Proofs.Source.Target
import Concord.Proofs.Source.Trailer
import Concord.Proofs.Store.Agreement
import Concord.Proofs.Store.History
import Concord.Proofs.Store.Selection
import Concord.Proofs.Strategy.Arithmetic
import Concord.Proofs.Strategy.Branch
import Concord.Proofs.Strategy.Comprehension
import Concord.Proofs.Strategy.Condition
import Concord.Proofs.Strategy.DeadStore
import Concord.Proofs.Strategy.Iteration
import Concord.Proofs.Strategy.Template
import Concord.Proofs.Tree.Alike
import Concord.Proofs.Tree.Idempotent
import Concord.Proofs.Tree.InStep
import Concord.Proofs.Tree.Likeness
import Concord.Proofs.Tree.Literal
import Concord.Proofs.Tree.Numbered
import Concord.Proofs.Tree.Place
import Concord.Proofs.Tree.Reads
import Concord.Proofs.Tree.Renaming
import Concord.Proofs.Tree.Substitution
import Concord.Proofs.Tree.Tidy
import Concord.Source.CasePattern
import Concord.Source.Cursor
import Concord.Source.Expression
import Concord.Source.Statement
import Concord.Source.Token
import Concord.Store.Backend
import Concord.Store.Basic
import Concord.Store.Record
import Concord.Store.Selection
import Concord.Store.Table
import Concord.Store.Timestamp
import Concord.Strategy.Arithmetic
import Concord.Strategy.Basic
import Concord.Strategy.Build
import Concord.Strategy.Condition
import Concord.Strategy.Flow
import Concord.Strategy.Registry
import Concord.Strategy.Removal
import Concord.Strategy.Template
import Concord.Text.Blank
import Concord.Text.Case
import Concord.Text.CharClass
import Concord.Text.Identifier
import Concord.Text.Letter
import Concord.Text.Names
import Concord.Text.Quoted
import Concord.Text.Search
import Concord.Toml.Lexeme
import Concord.Toml.Number
import Concord.Toml.Reader
import Concord.Toml.Table
import Concord.Tree.Basic
import Concord.Tree.Edit
import Concord.Tree.Equality
import Concord.Tree.Literal
import Concord.Tree.Normal
import Concord.Tree.Operator
import Concord.Tree.Printer
import Concord.Tree.Scope
import Concord.Tree.Walk
