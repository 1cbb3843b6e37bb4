import SchoolAlgebra.Degree
set_option autoImplicit false

namespace SchoolAlgebra

/-- Whole numbers from `first` to `last`, both included; none if `last` lies below `first`. -/
structure Window where
  first : Int32
  last : Int32
  deriving DecidableEq, Repr

namespace Window

def size (w : Window) : Nat := (w.last.toInt + 1 - w.first.toInt).toNat

def points (w : Window) : List Int32 :=
  (List.range w.size).map fun (i : Nat) => Int32.ofInt (w.first.toInt + (i : Int))

theorem length_points (w : Window) : w.points.length = w.size := by
  simp [points]

end Window

structure Sampling where
  linear : Window := ⟨-5, 5⟩
  quadratic : Window := ⟨-10, 10⟩
  deriving DecidableEq, Repr

def Sampling.window (s : Sampling) : Degree → Window
  | .linear => s.linear
  | .quadratic => s.quadratic

def usualDecimals : UInt64 := 2

structure Options where
  sampling : Sampling := {}
  decimals : UInt64 := usualDecimals
  deriving DecidableEq, Repr

namespace Options

def withSampling (o : Options) (s : Sampling) : Options := { o with sampling := s }

def withLinear (o : Options) (w : Window) : Options :=
  { o with sampling := { o.sampling with linear := w } }

def withQuadratic (o : Options) (w : Window) : Options :=
  { o with sampling := { o.sampling with quadratic := w } }

def withDecimals (o : Options) (n : UInt64) : Options := { o with decimals := n }

end Options

end SchoolAlgebra
