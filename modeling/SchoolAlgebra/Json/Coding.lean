import SchoolAlgebra.Json.Exchange
import SchoolAlgebra.Report
set_option autoImplicit false

namespace SchoolAlgebra

section

variable {ν : Type} (L : Library ν)

def Degree.coder : Coder ν Degree := L.words [.linear, .quadratic] Degree.word

def Sides.fields : Fields ν Sides (Text → Text → Sides) :=
  .cons "left" L.text Sides.left (.cons "right" L.text Sides.right .nil)

def Sides.coder : Coder ν Sides := L.record (Sides.fields L) Sides.mk

def Linear.fields : Fields ν Linear (Binary64 → Binary64 → Binary64 → Linear) :=
  .cons "a" L.float Linear.a (.cons "b" L.float Linear.b (.cons "c" L.float Linear.c .nil))

def Linear.coder : Coder ν Linear := L.record (Linear.fields L) Linear.mk

def Quadratic.fields :
    Fields ν Quadratic (Binary64 → Binary64 → Binary64 → Binary64 → Binary64 → Quadratic) :=
  .cons "a" L.float Quadratic.a (.cons "b" L.float Quadratic.b (.cons "c" L.float Quadratic.c
    (.cons "original_right" L.float Quadratic.typedRight
      (.cons "constant_left" L.float Quadratic.typedConstant .nil))))

def Quadratic.coder : Coder ν Quadratic := L.record (Quadratic.fields L) Quadratic.mk

namespace Coefficients

def linearVariant : Variant ν Coefficients where
  name := "linear"
  fields := Linear.fields L
  make := Linear.mk
  inject := linear
  content?
    | linear p => some p
    | _ => none

def quadraticVariant : Variant ν Coefficients where
  name := "quadratic"
  fields := Quadratic.fields L
  make := Quadratic.mk
  inject := quadratic
  content?
    | quadratic p => some p
    | _ => none

def coder : Coder ν Coefficients :=
  L.tagged "degree" [linearVariant L, quadraticVariant L]

end Coefficients

namespace Solution

def noSolutionVariant : Variant ν Solution where
  name := "no_solution"
  fields := .nil
  make := ()
  inject _ := noSolution
  content?
    | noSolution => some ()
    | _ => none

def oneRealVariant : Variant ν Solution where
  name := "one_real"
  fields := .cons "x" L.float id .nil
  make x := x
  inject := oneReal
  content?
    | oneReal x => some x
    | _ => none

def twoRealVariant : Variant ν Solution where
  name := "two_real"
  fields := .cons "x1" L.float Prod.fst (.cons "x2" L.float Prod.snd .nil)
  make := Prod.mk
  inject xs := twoReal xs.1 xs.2
  content?
    | twoReal x1 x2 => some (x1, x2)
    | _ => none

def complexPairVariant : Variant ν Solution where
  name := "complex_pair"
  fields := .cons "real" L.float Prod.fst (.cons "imaginary" L.float Prod.snd .nil)
  make := Prod.mk
  inject parts := complexPair parts.1 parts.2
  content?
    | complexPair real imaginary => some (real, imaginary)
    | _ => none

def coder : Coder ν Solution :=
  L.tagged "kind" [noSolutionVariant, oneRealVariant L, twoRealVariant L, complexPairVariant L]

def kind : Solution → Text
  | noSolution => "no_solution".toList
  | oneReal _ => "one_real".toList
  | twoReal _ _ => "two_real".toList
  | complexPair _ _ => "complex_pair".toList

end Solution

def TableEntry.fields : Fields ν TableEntry (Int32 → Text → TableEntry) :=
  .cons "x" L.int32 TableEntry.x (.cons "y" L.text TableEntry.y .nil)

def TableEntry.coder : Coder ν TableEntry := L.record (TableEntry.fields L) TableEntry.mk

def Report.fields : Fields ν Report (Degree → Sides → Coefficients → Solution → List TableEntry →
    List Text → UInt64 → Report) :=
  .cons "degree" (Degree.coder L) Report.degree
    (.cons "normalized" (Sides.coder L) Report.sides
      (.cons "coefficients" (Coefficients.coder L) Report.coefficients
        (.cons "solution" (Solution.coder L) Report.solution
          (.cons "table" (L.list (TableEntry.coder L)) Report.table
            (.cons "procedure" (L.list L.text) Report.procedure
              (.cons "decimals" L.count Report.decimals .nil))))))

/-- The fields are taken as they are, whether they agree or not. -/
def Report.coder : Coder ν Report := L.record (Report.fields L) Report.mk

end

def Degree.toJson : Degree → Json := (Degree.coder Json.library).write

def Degree.ofJson? : Json → Option Degree := (Degree.coder Json.library).read?

def Sides.toJson : Sides → Json := (Sides.coder Json.library).write

def Sides.ofJson? : Json → Option Sides := (Sides.coder Json.library).read?

def Linear.toJson : Linear → Json := (Linear.coder Json.library).write

def Linear.ofJson? : Json → Option Linear := (Linear.coder Json.library).read?

def Quadratic.toJson : Quadratic → Json := (Quadratic.coder Json.library).write

def Quadratic.ofJson? : Json → Option Quadratic := (Quadratic.coder Json.library).read?

def Coefficients.toJson : Coefficients → Json := (Coefficients.coder Json.library).write

def Coefficients.ofJson? : Json → Option Coefficients := (Coefficients.coder Json.library).read?

def Solution.toJson : Solution → Json := (Solution.coder Json.library).write

def Solution.ofJson? : Json → Option Solution := (Solution.coder Json.library).read?

theorem Solution.field?_kind (s : Solution) :
    s.toJson.field? "kind".toList = some (.text s.kind) := by
  cases s <;> rfl

def TableEntry.toJson : TableEntry → Json := (TableEntry.coder Json.library).write

def TableEntry.ofJson? : Json → Option TableEntry := (TableEntry.coder Json.library).read?

def Report.toJson : Report → Json := (Report.coder Json.library).write

def Report.ofJson? : Json → Option Report := (Report.coder Json.library).read?

end SchoolAlgebra
