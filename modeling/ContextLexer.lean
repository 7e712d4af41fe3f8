import ContextLexer.Cursor.Move
import ContextLexer.Delimited.Scanner
import ContextLexer.Host
import ContextLexer.Offside.Scanner
import ContextLexer.Proofs.Acceptance
import ContextLexer.Proofs.Boundaries
import ContextLexer.Proofs.Capacity
import ContextLexer.Proofs.Columns
import ContextLexer.Proofs.Delimited.Change
import ContextLexer.Proofs.Delimited.Closers
import ContextLexer.Proofs.Delimited.Comment
import ContextLexer.Proofs.Delimited.Consuming
import ContextLexer.Proofs.Delimited.Directives
import ContextLexer.Proofs.Delimited.Grammar
import ContextLexer.Proofs.Delimited.Literals
import ContextLexer.Proofs.Delimited.Loops
import ContextLexer.Proofs.Delimited.OwnText
import ContextLexer.Proofs.Delimited.Recursion
import ContextLexer.Proofs.Delimited.StoredTag
import ContextLexer.Proofs.Iterations
import ContextLexer.Proofs.Nearsighted
import ContextLexer.Proofs.Offside.Account
import ContextLexer.Proofs.Offside.Document
import ContextLexer.Proofs.Offside.Loading
import ContextLexer.Proofs.Offside.Pairing
import ContextLexer.Proofs.Offside.Standstill
import ContextLexer.Proofs.Offside.Stream
import ContextLexer.Proofs.Onward
import ContextLexer.Proofs.Partition
import ContextLexer.Proofs.Passage
import ContextLexer.Proofs.Plays
import ContextLexer.Proofs.Progress
import ContextLexer.Proofs.Readings
import ContextLexer.Proofs.Sessions
import ContextLexer.Proofs.Shell.BraceRange
import ContextLexer.Proofs.Shell.BracedRegex
import ContextLexer.Proofs.Shell.Change
import ContextLexer.Proofs.Shell.Declined
import ContextLexer.Proofs.Shell.Discipline
import ContextLexer.Proofs.Shell.EmptyRegex
import ContextLexer.Proofs.Shell.ExpansionSymbol
import ContextLexer.Proofs.Shell.ExpansionWord
import ContextLexer.Proofs.Shell.ExtendedGlob
import ContextLexer.Proofs.Shell.HandOvers
import ContextLexer.Proofs.Shell.Heredoc.Alternation
import ContextLexer.Proofs.Shell.Heredoc.Between
import ContextLexer.Proofs.Shell.Heredoc.Body
import ContextLexer.Proofs.Shell.Heredoc.Calls
import ContextLexer.Proofs.Shell.Heredoc.Contents
import ContextLexer.Proofs.Shell.Heredoc.CutOff
import ContextLexer.Proofs.Shell.Heredoc.Dollars
import ContextLexer.Proofs.Shell.Heredoc.Expansion
import ContextLexer.Proofs.Shell.Heredoc.Interpolated
import ContextLexer.Proofs.Shell.Heredoc.Opening
import ContextLexer.Proofs.Shell.Heredoc.Outcome
import ContextLexer.Proofs.Shell.Heredoc.Parts
import ContextLexer.Proofs.Shell.Heredoc.Plain
import ContextLexer.Proofs.Shell.Heredoc.Quoting
import ContextLexer.Proofs.Shell.Heredoc.Raw
import ContextLexer.Proofs.Shell.Heredoc.Stacked
import ContextLexer.Proofs.Shell.Heredoc.Turns
import ContextLexer.Proofs.Shell.Heredoc.Watch
import ContextLexer.Proofs.Shell.Heredoc.Whole
import ContextLexer.Proofs.Shell.Loops
import ContextLexer.Proofs.Shell.Name
import ContextLexer.Proofs.Shell.Pattern
import ContextLexer.Proofs.Shell.Recovery
import ContextLexer.Proofs.Shell.RegexCalls
import ContextLexer.Proofs.Shell.SlashedRegex
import ContextLexer.Proofs.Shell.SpacedRegex
import ContextLexer.Proofs.Shell.SplitGlob
import ContextLexer.Proofs.Shell.VariableName
import ContextLexer.Proofs.Shell.Visits
import ContextLexer.Proofs.Shell.Walk
import ContextLexer.Proofs.Snapshot.Decoding
import ContextLexer.Proofs.Snapshot.Refusals
import ContextLexer.Proofs.Snapshot.Replay
import ContextLexer.Proofs.Snapshot.RoundTrip
import ContextLexer.Proofs.Snapshot.Sequences
import ContextLexer.Proofs.Snapshot.Steps
import ContextLexer.Proofs.Snapshot.Truncations
import ContextLexer.Proofs.Unicode.WhiteSpace
import ContextLexer.Shell.Scanner
