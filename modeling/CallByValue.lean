import CallByValue.Main
import CallByValue.Sessions
import CallByValue.Proofs.Frames
import CallByValue.Proofs.Forms
import CallByValue.Proofs.Guarantees
import CallByValue.Proofs.Disciplines
import CallByValue.Proofs.Closedness
import CallByValue.Proofs.Names
import CallByValue.Proofs.WellFormed
import CallByValue.Proofs.Writing
import CallByValue.Proofs.Budgets
import CallByValue.Proofs.Likeness
import CallByValue.Proofs.Correspondence
import CallByValue.Proofs.Simulation
import CallByValue.Proofs.Scoping
import CallByValue.Proofs.FixedPoints
import CallByValue.Proofs.Recursion
import CallByValue.Proofs.Adequacy
import CallByValue.Proofs.Faults
import CallByValue.Proofs.RoundTrip
import CallByValue.Proofs.Outlets
import CallByValue.Proofs.Visits
import CallByValue.Proofs.Exhaustion
import CallByValue.Proofs.RunInvariants
import CallByValue.Proofs.HeapShape
import CallByValue.Proofs.Hosts
import CallByValue.Proofs.Persistence
import CallByValue.Proofs.Sameness
import CallByValue.Proofs.MatchingCode
import CallByValue.Proofs.PlainNumbers
import CallByValue.Proofs.Tolerance
import CallByValue.Proofs.Lockstep
import CallByValue.Proofs.Isomorphism
import CallByValue.Proofs.Idempotence
import CallByValue.Proofs.Congruence
import CallByValue.Proofs.Reading
import CallByValue.Proofs.Occurrences
import CallByValue.Proofs.Answers
import CallByValue.Proofs.Endings
import CallByValue.Proofs.ExactIntegers
import CallByValue.Proofs.OrderOfNames
import CallByValue.Proofs.DerivedForms
import CallByValue.Proofs.RecursiveBindings
import CallByValue.Proofs.ValueEquality
import CallByValue.Proofs.EnvironmentEquality
import CallByValue.Proofs.Issues
import CallByValue.Proofs.Nearest
import CallByValue.Proofs.Quotients
import CallByValue.Proofs.LineBreaks
import CallByValue.Proofs.LineStyles
import CallByValue.Proofs.SurfaceTrees
import CallByValue.Proofs.SurfaceWords
import CallByValue.Proofs.UniqueReading
import CallByValue.Proofs.WireEquality
