import SchoolAlgebra.Binary64.Bits
import SchoolAlgebra.Json.Coding
import SchoolAlgebra.Proofs.Decomposition
import SchoolAlgebra.Proofs.Numeral
import SchoolAlgebra.Proofs.Typed
import SchoolAlgebra.Proofs.Outcome
import SchoolAlgebra.Proofs.Agreement
import SchoolAlgebra.Proofs.ReadBack
import SchoolAlgebra.Proofs.Restatement
import SchoolAlgebra.Proofs.Narration
import SchoolAlgebra.Proofs.Nearest
import SchoolAlgebra.Proofs.Value
import SchoolAlgebra.Proofs.SquareRoot
import SchoolAlgebra.Proofs.WholeText
import SchoolAlgebra.Proofs.Denotation
import SchoolAlgebra.Proofs.Planted
import SchoolAlgebra.Proofs.ErrorBounds
import SchoolAlgebra.Proofs.Discriminant
import SchoolAlgebra.Proofs.WellFormed
import SchoolAlgebra.Proofs.Consistency
import SchoolAlgebra.Proofs.Residual
import SchoolAlgebra.Proofs.Sampling
import SchoolAlgebra.Proofs.JsonChanges
import SchoolAlgebra.Proofs.Spelling
import SchoolAlgebra.Proofs.Coding
import SchoolAlgebra.Proofs.OptionsReach
import SchoolAlgebra.Proofs.RelativeError
import SchoolAlgebra.Proofs.Tolerance
import SchoolAlgebra.Proofs.PerfectSquare
import SchoolAlgebra.Proofs.Symmetry
import SchoolAlgebra.Proofs.RootOrder
import SchoolAlgebra.Proofs.MovedConstant
import SchoolAlgebra.Proofs.MinusZero
import SchoolAlgebra.Proofs.PolynomialText
import SchoolAlgebra.Proofs.AllOrNothing
