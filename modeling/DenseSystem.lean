import DenseSystem.Decimal.Magnitude.Lemmas
import DenseSystem.DenseMatrix.Edit
import DenseSystem.DenseMatrix.Printed
import DenseSystem.Determinant
import DenseSystem.Document.Report
import DenseSystem.Exchange.Reader
import DenseSystem.Exchange.Writer
import DenseSystem.Solver.Log.Text
import DenseSystem.Step.Replay
import DenseSystem.Step.Text
import DenseSystem.Proofs.Double.EqualColumns.Verdict
import DenseSystem.Proofs.Exact.Decision
import DenseSystem.Proofs.Agreement
import DenseSystem.Proofs.Rank.LastColumn
import DenseSystem.Proofs.Elimination.Retraced
import DenseSystem.Proofs.Solver.Course
import DenseSystem.Proofs.Solver.Retraced
import DenseSystem.Proofs.Elimination.Forward
import DenseSystem.Proofs.Solver.Forward
import DenseSystem.Proofs.Guarded.Basic
import DenseSystem.Proofs.Guarded.Matrix
import DenseSystem.Proofs.Guarded.Elimination
import DenseSystem.Proofs.Guarded.Rank
import DenseSystem.Proofs.Guarded.Solver
import DenseSystem.Proofs.Solver.WellFormed
import DenseSystem.Proofs.Exchange.Loop
import DenseSystem.Proofs.Exchange.RoundTrip
import DenseSystem.Proofs.Solver.Language
import DenseSystem.Proofs.Threaded.TwoRuns
import DenseSystem.Proofs.Threaded.Told
import DenseSystem.Proofs.Exact.Inverse
import DenseSystem.Proofs.Solver.Rearranged
import DenseSystem.Proofs.Storage.History
import DenseSystem.Proofs.Exact.RankBound
import DenseSystem.Proofs.Exact.SignedPivots
import DenseSystem.Proofs.Solver.UnitVectors
import DenseSystem.Proofs.Determinant.Rearranged
import DenseSystem.Proofs.Double.EqualRows.Verdict
import DenseSystem.Proofs.Double.EqualColumns.Inversion
import DenseSystem.Proofs.Solver.Permutation
import DenseSystem.Proofs.Storage.Reduced
import DenseSystem.Proofs.Exact.Growth
import DenseSystem.Proofs.Solver.Reported
import DenseSystem.Proofs.Exchange.FirstFault
import DenseSystem.Proofs.Double.PivotSearch
import DenseSystem.Proofs.Storage.Documents
import DenseSystem.Proofs.Storage.Parts
