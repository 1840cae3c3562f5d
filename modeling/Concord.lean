import Concord.LogFormat
import Concord.Main
import Concord.Proofs.Comparison.Questions
import Concord.Proofs.Comparison.Rules
import Concord.Proofs.Comparison.Memory
import Concord.Proofs.Comparison.Exactness
import Concord.Proofs.Comparison.Calls
import Concord.Proofs.Comparison.Causes
import Concord.Proofs.Comparison.Refuting
import Concord.Proofs.Tree.Descent
import Concord.Proofs.Steps
import Concord.Proofs.Tree.Built
import Concord.Proofs.Merge.Origin
import Concord.Proofs.Merge.Runs
import Concord.Proofs.Merge.Plan
import Concord.Proofs.Merge.Sound
import Concord.Proofs.Merge.Accounting
import Concord.Proofs.Type.Traversal
import Concord.Proofs.Declaration.Payload
import Concord.Proofs.Source.Reading
import Concord.Proofs.Tree.Regular
import Concord.Proofs.Source.Spelling
import Concord.Proofs.Output.Rebinding
import Concord.Proofs.Output.Registry
import Concord.Proofs.Output.Placing
import Concord.Proofs.Output.Growth
import Concord.Proofs.Output.Copying
import Concord.Proofs.Output.Writing
import Concord.Proofs.Merge.Partners
import Concord.Proofs.Preservation
import Concord.Proofs.Type.References
import Concord.Proofs.Declaration.References
import Concord.Proofs.Output.Orderly
import Concord.Proofs.Output.Allotment
import Concord.Proofs.Output.Completion
import Concord.Proofs.Output.Closed
import Concord.Proofs.Source.References
import Concord.Proofs.Source.Preorder
import Concord.Proofs.Merge.Shared
import Concord.Proofs.Merge.Orderly
import Concord.Proofs.Completeness
import Concord.Proofs.Output.Seating
import Concord.Proofs.Output.Standing
import Concord.Proofs.Output.Resting
import Concord.Proofs.Faithfulness
import Concord.Proofs.Merge.Oracle
import Concord.Proofs.Parallel.Program
import Concord.Proofs.Parallel.Workers
import Concord.Proofs.ParallelMerge
import Concord.Proofs.Comparison.Symmetry
import Concord.Proofs.Merge.MatchedPairs
import Concord.Proofs.Symmetry
import Concord.Proofs.Json.Fields
import Concord.Proofs.RoundTrip
import Concord.Proofs.SourceRoundTrip
import Concord.Proofs.Causes
import Concord.Proofs.Sharing
import Concord.Proofs.Failures
import Concord.Proofs.Reflexivity
import Concord.Proofs.Idempotence
import Concord.Proofs.Output.Produced
import Concord.Proofs.ExpectActual
import Concord.Proofs.Output.Writable
import Concord.Proofs.Reloading
import Concord.Proofs.Building
import Concord.Proofs.Comparison.Agreement
import Concord.Proofs.Comparison.Matches
import Concord.Proofs.Logic.Knowing
import Concord.Proofs.Merge.Extracts
import Concord.Proofs.Type.Compared
import Concord.Proofs.Comparison.Remembering
import Concord.Proofs.Comparison.Classifiers
import Concord.Proofs.Comparison.Shapes
import Concord.Proofs.Comparison.Spelling
import Concord.Proofs.Logic.Learning
import Concord.Proofs.Declaration.Restating
import Concord.Proofs.Merge.Remembered
import Concord.Proofs.Merge.Restated
import Concord.Proofs.Merge.Surroundings
import Concord.Proofs.CommonSpelling
import Concord.Proofs.Signatures
import Concord.Proofs.Comparison.OneTree
import Concord.Proofs.Comparison.Across
import Concord.Proofs.Merge.Greedy
import Concord.Proofs.GreedyPairing
import Concord.Proofs.ContainingClasses
import Concord.Proofs.Merge.Reporting
import Concord.Proofs.Reports
import Concord.Proofs.Comparison.Tracing
import Concord.Proofs.Comparison.Limits
import Concord.Proofs.Limits
import Concord.Proofs.Merge.Intersections
import Concord.Proofs.Intersections
import Concord.Proofs.OwnershipCheck
import Concord.Proofs.Linking
import Concord.Proofs.Output.Refilling
import Concord.Proofs.Comparison.Observing
import Concord.Proofs.Comparison.Discipline
import Concord.Proofs.Names
import Concord.Proofs.Pattern.Matching
import Concord.Proofs.Pattern.Sets
import Concord.Proofs.Pattern.Reading
import Concord.Proofs.ExcludedNames
