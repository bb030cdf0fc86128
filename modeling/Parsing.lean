import Parsing.Arithmetic.Evaluator
import Parsing.Deferred
import Parsing.Arithmetic.Build
import Parsing.Registers.Cursors
import Parsing.Registers.Outcomes
import Parsing.Report.Box
import Parsing.Script.Workspace
import Parsing.Proofs.Runs
import Parsing.Proofs.Suffix
import Parsing.Proofs.Arithmetic.Unfolding
import Parsing.Proofs.Arithmetic.Longest
import Parsing.Proofs.Arithmetic.Chain
import Parsing.Proofs.Arithmetic.Kept
import Parsing.Proofs.Arithmetic.Reading
import Parsing.Proofs.Arithmetic.Evaluation
import Parsing.Proofs.Arithmetic.LeftToRight
import Parsing.Proofs.Remainder
import Parsing.Proofs.Arithmetic.Nesting
import Parsing.Proofs.Arithmetic.Stage
import Parsing.Proofs.Arithmetic.Verdict
import Parsing.Proofs.Arithmetic.Diagnosis
import Parsing.Proofs.FailurePlace
import Parsing.Proofs.Labels
import Parsing.Proofs.Translation
import Parsing.Proofs.Trace
import Parsing.Proofs.Pooling
import Parsing.Proofs.PlainRepetition
import Parsing.Proofs.MonadLaws
import Parsing.Proofs.References
import Parsing.Proofs.TermReferences
import Parsing.Proofs.Deferred
import Parsing.Proofs.Arithmetic.Build
import Parsing.Proofs.WeakLinks
import Parsing.Proofs.Approximation
import Parsing.Proofs.Alive
import Parsing.Proofs.Lifecycle
import Parsing.Proofs.Handles
import Parsing.Proofs.Arithmetic.Descent
import Parsing.Proofs.OwnerLinks
import Parsing.Proofs.Unambiguous
import Parsing.Proofs.Substitution
import Parsing.Proofs.Recursion
import Parsing.Proofs.Merging
import Parsing.Proofs.DerivedForms
import Parsing.Proofs.Accumulation
import Parsing.Proofs.Maximality
import Parsing.Proofs.Alternation
import Parsing.Proofs.Literals
import Parsing.Proofs.WholeInput
import Parsing.Proofs.Arithmetic.TrailingInput
import Parsing.Proofs.SeparatedLists
import Parsing.Proofs.IndexedCursors
import Parsing.Proofs.RegisterRuns
import Parsing.Proofs.SuffixOrder
import Parsing.Proofs.Arithmetic.Passing
import Parsing.Proofs.Arithmetic.EvaluationLog
import Parsing.Proofs.ReportedPlace
import Parsing.Proofs.Groupings
