import MacroScript.Main
import MacroScript.Proofs.Leaf
import MacroScript.Proofs.Outcome
import MacroScript.Proofs.Splicing
import MacroScript.Proofs.FullExpansion
import MacroScript.Proofs.Reading.Follows
import MacroScript.Proofs.Reading.MacroNode
import MacroScript.Proofs.Reading.Expression
import MacroScript.Proofs.Reading.Statement
import MacroScript.Proofs.Hygiene.Progress
import MacroScript.Proofs.Hygiene.Resolution
import MacroScript.Proofs.Hygiene.Reading
import MacroScript.Proofs.Matching
import MacroScript.Proofs.Transcript
import MacroScript.Proofs.Hygiene.Performed
import MacroScript.Proofs.Hygiene.Mention
import MacroScript.Proofs.Hygiene.Overwriting
import MacroScript.Proofs.Scanning
import MacroScript.Proofs.Hygiene.Source
import MacroScript.Proofs.Hygiene.Run
import MacroScript.Proofs.Hygiene.SharedScopes
import MacroScript.Proofs.Hygiene.Written
import MacroScript.Proofs.Reading.Composed
import MacroScript.Proofs.Reading.Plain
import MacroScript.Proofs.Conservative
import MacroScript.Proofs.Blame.Registered
import MacroScript.Proofs.Matching.Levels
import MacroScript.Proofs.Blame.Transcript
import MacroScript.Proofs.Blame.Compile
import MacroScript.Proofs.Hygiene.Fresh
import MacroScript.Proofs.Mark
import MacroScript.Proofs.Renumbering
import MacroScript.Proofs.Tandem.Parser
import MacroScript.Proofs.Tandem.Session
import MacroScript.Proofs.Tandem.Reading
import MacroScript.Proofs.Tandem.Matching
import MacroScript.Proofs.Tandem.Transcript
import MacroScript.Proofs.Tandem.Compile
import MacroScript.Proofs.Isolation
import MacroScript.Proofs.LineIndex
import MacroScript.Proofs.LineColumn
import MacroScript.Proofs.Lossless
import MacroScript.Proofs.Faithful
import MacroScript.Proofs.Lexical
import MacroScript.Proofs.LateMacro
import MacroScript.Proofs.Lookahead.Agreement
import MacroScript.Proofs.Lookahead.Parser
import MacroScript.Proofs.Lookahead.MacroNode
import MacroScript.Proofs.Lookahead.Expression
import MacroScript.Proofs.Lookahead.Arrow
import MacroScript.Proofs.Lookahead.Statement
import MacroScript.Proofs.Lookahead.Program
import MacroScript.Proofs.Lookahead.Longest
import MacroScript.Proofs.Lookahead.Termination
import MacroScript.Proofs.Visibility
import MacroScript.Proofs.AssignmentTarget
import MacroScript.Proofs.DanglingElse
import MacroScript.Proofs.Observation
import MacroScript.Proofs.Hygiene.Trace
import MacroScript.Proofs.Extent.Parser
import MacroScript.Proofs.Extent.MacroNode
import MacroScript.Proofs.Extent.Grammar
import MacroScript.Proofs.Extent.Expansion
import MacroScript.Proofs.Extent.Source
import MacroScript.Proofs.Extent.Tree
import MacroScript.Proofs.SourceMap.Decoding
import MacroScript.Proofs.SourceMap.Positions
import MacroScript.Proofs.SourceMap.Segments
import MacroScript.Proofs.Matching.Instance
import MacroScript.Proofs.Matching.Shape
import MacroScript.Proofs.Matching.Repetition
import MacroScript.Proofs.Matching.Selection
import MacroScript.Proofs.Balanced
import MacroScript.Proofs.Template.Node
import MacroScript.Proofs.Template.Pattern
import MacroScript.Proofs.Template.Evaluation
import MacroScript.Proofs.Template.Identity
import MacroScript.Proofs.Hygiene.Reached
import MacroScript.Proofs.Hygiene.Spelling
import MacroScript.Proofs.Nesting
import MacroScript.Proofs.ScopeDiscipline
import MacroScript.Proofs.LoopHead
