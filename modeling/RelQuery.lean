import RelQuery.Codec.Expr
import RelQuery.Deadline.Basic
import RelQuery.Engine.Run
import RelQuery.Expr.Operands
import RelQuery.Proofs.Binary64.Rounding
import RelQuery.Proofs.Codec.Canonical
import RelQuery.Proofs.Codec.Locality
import RelQuery.Proofs.Codec.Recognition
import RelQuery.Proofs.Codec.Record
import RelQuery.Proofs.Codec.RoundTrip
import RelQuery.Proofs.Codec.Spelling
import RelQuery.Proofs.Engine.Arranged
import RelQuery.Proofs.Engine.Distinct
import RelQuery.Proofs.Engine.DistinctGroups
import RelQuery.Proofs.Engine.Early
import RelQuery.Proofs.Engine.Fetched
import RelQuery.Proofs.Engine.FirstOccurrences
import RelQuery.Proofs.Engine.Gathered
import RelQuery.Proofs.Engine.Grouped
import RelQuery.Proofs.Engine.Having
import RelQuery.Proofs.Engine.InnerJoins
import RelQuery.Proofs.Engine.Joined
import RelQuery.Proofs.Engine.JoinedRows
import RelQuery.Proofs.Engine.Late
import RelQuery.Proofs.Engine.Members
import RelQuery.Proofs.Engine.Narrowed
import RelQuery.Proofs.Engine.Planned
import RelQuery.Proofs.Engine.Prefilter
import RelQuery.Proofs.Engine.Projected
import RelQuery.Proofs.Engine.Reference
import RelQuery.Proofs.Engine.RowOrder
import RelQuery.Proofs.Engine.Separable
import RelQuery.Proofs.Engine.Stored
import RelQuery.Proofs.Engine.TwoTables
import RelQuery.Proofs.Engine.WithLiteral
import RelQuery.Proofs.Expr.Agreement
import RelQuery.Proofs.Expr.Evaluation
import RelQuery.Proofs.Expr.Folding
import RelQuery.Proofs.Expr.Lookup
import RelQuery.Proofs.Expr.RealFree
import RelQuery.Proofs.Faults.Evaluating
import RelQuery.Proofs.Faults.Grouping
import RelQuery.Proofs.Faults.Joining
import RelQuery.Proofs.Faults.Outcomes
import RelQuery.Proofs.Faults.Planning
import RelQuery.Proofs.Faults.Reading
import RelQuery.Proofs.Faults.Running
import RelQuery.Proofs.Faults.Walking
import RelQuery.Proofs.Group.Classes
import RelQuery.Proofs.Group.Folding
import RelQuery.Proofs.Group.Meaning
import RelQuery.Proofs.Group.Representatives
import RelQuery.Proofs.Group.Rewriting
import RelQuery.Proofs.Group.Runs
import RelQuery.Proofs.Group.Sums
import RelQuery.Proofs.Join.Acceptance
import RelQuery.Proofs.Join.Chain
import RelQuery.Proofs.Join.Closing
import RelQuery.Proofs.Join.Covering
import RelQuery.Proofs.Join.Embedding
import RelQuery.Proofs.Join.Fitting
import RelQuery.Proofs.Join.Growth
import RelQuery.Proofs.Join.Matching
import RelQuery.Proofs.Join.Meaning
import RelQuery.Proofs.Join.NumericKeys
import RelQuery.Proofs.Join.Partners
import RelQuery.Proofs.Join.Sides
import RelQuery.Proofs.Join.Slots
import RelQuery.Proofs.Join.Steps
import RelQuery.Proofs.Join.Walked
import RelQuery.Proofs.Lock.Entries
import RelQuery.Proofs.Lock.Guards
import RelQuery.Proofs.Lock.Holdings
import RelQuery.Proofs.Lock.Readers
import RelQuery.Proofs.Lock.Restored
import RelQuery.Proofs.Result
import RelQuery.Proofs.Sorting
import RelQuery.Proofs.Store.History
import RelQuery.Proofs.Value.Conversion
import RelQuery.Proofs.Value.Integers
import RelQuery.Proofs.Value.Numbers
import RelQuery.Proofs.Value.SortOrder
import RelQuery.Settings
