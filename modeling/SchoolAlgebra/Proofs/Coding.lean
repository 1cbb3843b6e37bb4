import SchoolAlgebra.Json.Coding
import SchoolAlgebra.Proofs.Library
set_option autoImplicit false

namespace SchoolAlgebra

def Linear.numbers (p : Linear) : Located := [(["a"], p.a), (["b"], p.b), (["c"], p.c)]

def Quadratic.numbers (p : Quadratic) : Located :=
  [(["a"], p.a), (["b"], p.b), (["c"], p.c), (["original_right"], p.typedRight),
    (["constant_left"], p.typedConstant)]

def Coefficients.numbers : Coefficients → Located
  | linear p => p.numbers
  | quadratic p => p.numbers

def Solution.numbers : Solution → Located
  | noSolution => []
  | oneReal x => [(["x"], x)]
  | twoReal x1 x2 => [(["x1"], x1), (["x2"], x2)]
  | complexPair real imaginary => [(["real"], real), (["imaginary"], imaginary)]

def Report.numbers (r : Report) : Located :=
  r.coefficients.numbers.under "coefficients" ++ r.solution.numbers.under "solution"

section

variable {ν : Type} {L : Library ν} (hL : L.Lawful)
include hL

theorem Degree.coded : (coder L).Coded fun _ => [] :=
  hL.words_coded (fun d => by cases d <;> simp) (by decide)

theorem Sides.coded : (coder L).Coded fun _ => [] :=
  hL.record_coded (.cons hL.text_coded (.cons hL.text_coded .nil)) (by simp [fields, Fields.names])
    fun _ => rfl

theorem TableEntry.coded : (coder L).Coded fun _ => [] :=
  hL.record_coded (.cons hL.int32_coded (.cons hL.text_coded .nil)) (by simp [fields, Fields.names])
    fun _ => rfl

variable (hfloat : L.KeepsNumbers)
include hfloat

theorem Linear.fields_coded : (fields L).Coded numbers :=
  have hnumber := hL.float_coded hfloat
  .cons hnumber (.cons hnumber (.cons hnumber .nil))

theorem Linear.coded : (coder L).Coded numbers :=
  hL.record_coded (fields_coded hL hfloat) (by simp [fields, Fields.names]) fun _ => rfl

theorem Quadratic.fields_coded : (fields L).Coded numbers :=
  have hnumber := hL.float_coded hfloat
  .cons hnumber (.cons hnumber (.cons hnumber (.cons hnumber (.cons hnumber .nil))))

theorem Quadratic.coded : (coder L).Coded numbers :=
  hL.record_coded (fields_coded hL hfloat) (by simp [fields, Fields.names]) fun _ => rfl

namespace Coefficients

theorem linearVariant_coded : (linearVariant L).Coded "degree" numbers where
  fields := Linear.fields_coded hL hfloat
  names := by simp [linearVariant, Linear.fields, Fields.names]

theorem quadraticVariant_coded : (quadraticVariant L).Coded "degree" numbers where
  fields := Quadratic.fields_coded hL hfloat
  names := by simp [quadraticVariant, Quadratic.fields, Fields.names]

theorem coded : (coder L).Coded numbers := by
  refine hL.tagged_coded ?_ (by simp [linearVariant, quadraticVariant]) fun p => ?_
  · simp [linearVariant_coded hL hfloat, quadraticVariant_coded hL hfloat]
  · cases p <;> simp [linearVariant, quadraticVariant]

end Coefficients

namespace Solution

omit hL hfloat in
theorem noSolutionVariant_coded : (noSolutionVariant (ν := ν)).Coded "kind" numbers where
  fields := .nil
  names := by simp [noSolutionVariant, Fields.names]

theorem oneRealVariant_coded : (oneRealVariant L).Coded "kind" numbers where
  fields := .cons (hL.float_coded hfloat) .nil
  names := by simp [oneRealVariant, Fields.names]

theorem twoRealVariant_coded : (twoRealVariant L).Coded "kind" numbers where
  fields := .cons (hL.float_coded hfloat) (.cons (hL.float_coded hfloat) .nil)
  names := by simp [twoRealVariant, Fields.names]

theorem complexPairVariant_coded : (complexPairVariant L).Coded "kind" numbers where
  fields := .cons (hL.float_coded hfloat) (.cons (hL.float_coded hfloat) .nil)
  names := by simp [complexPairVariant, Fields.names]

theorem coded : (coder L).Coded numbers := by
  refine hL.tagged_coded ?_ ?_ fun s => ?_
  · simp [noSolutionVariant_coded, oneRealVariant_coded hL hfloat, twoRealVariant_coded hL hfloat,
      complexPairVariant_coded hL hfloat]
  · simp [noSolutionVariant, oneRealVariant, twoRealVariant, complexPairVariant]
  · cases s <;> simp [noSolutionVariant, oneRealVariant, twoRealVariant, complexPairVariant]

end Solution

theorem Report.fields_coded : (fields L).Coded numbers := by
  have h : (fields L).Coded _ := .cons (Degree.coded hL) (.cons (Sides.coded hL)
    (.cons (Coefficients.coded hL hfloat) (.cons (Solution.coded hL hfloat)
      (.cons (hL.list_coded (TableEntry.coded hL)) (.cons (hL.list_coded hL.text_coded)
        (.cons hL.count_coded .nil))))))
  exact h.congr (funext fun r => by simp [numbers, Located.under])

theorem Report.coded : (coder L).Coded numbers :=
  hL.record_coded (fields_coded hL hfloat) (by simp [fields, Fields.names]) fun _ => rfl

end

/-- A library that keeps what it promises, and keeps numbers, reads every result back from what it writes for
it. Fields of further names and another order of fields, of the result and of all results inside it, change
nothing; without one of its fields nothing is read. A number that is not finite is written as `null`, and
then nothing is read either. -/
theorem results_read_back {ν : Type} (L : Library ν) (hL : L.Lawful) (hfloat : L.KeepsNumbers) :
    (Degree.coder L).Faithful (fun _ => []) ∧
    (Sides.coder L).Faithful (fun _ => []) ∧
    (Linear.coder L).Faithful Linear.numbers ∧
    (Quadratic.coder L).Faithful Quadratic.numbers ∧
    (Coefficients.coder L).Faithful Coefficients.numbers ∧
    (Solution.coder L).Faithful Solution.numbers ∧
    (TableEntry.coder L).Faithful (fun _ => []) ∧
    (Report.coder L).Faithful Report.numbers :=
  ⟨(Degree.coded hL).faithful, (Sides.coded hL).faithful, (Linear.coded hL hfloat).faithful,
    (Quadratic.coded hL hfloat).faithful, (Coefficients.coded hL hfloat).faithful,
    (Solution.coded hL hfloat).faithful, (TableEntry.coded hL).faithful,
    (Report.coded hL hfloat).faithful⟩

/-- No library does it that does not keep numbers. -/
theorem Linear.keepsNumbers_of_read_back {ν : Type} {L : Library ν} (hL : L.Lawful)
    (h : ∀ p : Linear, p.numbers.AllFinite → (coder L).read? ((coder L).write p) = some p) :
    L.KeepsNumbers := by
  intro x hx
  have hread := h ⟨x, x, x⟩ (by simp [numbers, Located.AllFinite, hx])
  have hnames : (fields L).names.Nodup := by simp [fields, Fields.names]
  obtain ⟨gs, hgs, hp⟩ := hL.record_write (fields L) mk hnames ⟨x, x, x⟩
  have hn : (Json.keys gs).Nodup := Json.nodup_of_perm hp ((fields L).keys_written _ ▸ hnames)
  have ha : (Json.object gs).field? "a".toList = some (L.float.write x) :=
    Json.field?_of_mem hn (hp.mem_iff.2 List.mem_cons_self)
  rw [coder, hgs, hL.record_read _ _ hnames gs hn] at hread
  obtain ⟨y, hy, hrest⟩ := Option.bind_eq_some_iff.1 hread
  obtain ⟨_, -, hrest⟩ := Option.bind_eq_some_iff.1 hrest
  obtain ⟨_, -, hrest⟩ := Option.bind_eq_some_iff.1 hrest
  rw [Json.read?, ha, Option.bind_some] at hy
  rw [hy, (mk.inj (Option.some.inj hrest)).1]

theorem Json.int32?_int (k : Int32) : (Json.int k.toInt).int32? = some k := by
  have h : Int32.minValue.toInt ≤ k.toInt ∧ k.toInt ≤ Int32.maxValue.toInt :=
    ⟨k.minValue_le_toInt, k.toInt_le⟩
  change (if _ then some (Int32.ofInt k.toInt) else none) = some k
  rw [if_pos h, Int32.ofInt_toInt]

theorem Json.count?_int (k : UInt64) : (Json.int (k.toNat : Int)).count? = some k := by
  have hk := k.toNat_lt
  have h : 0 ≤ (k.toNat : Int) ∧ (k.toNat : Int) < 18446744073709551616 := by omega
  rw [count?, int, int?, Option.bind_eq_bind, Option.bind_some, if_pos h, Int.toNat_natCast,
    UInt64.ofNat_toNat]

theorem find?_of_nodup {α : Type*} {all : List α} {f : α → Text} (h : (all.map f).Nodup)
    {a : α} (ha : a ∈ all) : all.find? (f · = f a) = some a := by
  obtain ⟨before, after, rfl⟩ := List.append_of_mem ha
  rw [List.find?_eq_some_iff_append]
  refine ⟨by simp, before, after, rfl, fun b hb => ?_⟩
  have hne : f b ≠ f a := by
    rw [List.map_append, List.map_cons] at h
    exact (List.nodup_append.1 h).2.2 _ (List.mem_map_of_mem hb) _ List.mem_cons_self
  simp [hne]

theorem Json.library_lawful : Json.library.Lawful where
  float_finite x hx := ⟨.binary x, if_pos hx⟩
  float_other x hx := if_neg (by simp [hx])
  float_null := rfl
  int32 k := ⟨.whole k.toInt, rfl, int32?_int k⟩
  count k := ⟨.whole k.toNat, rfl, count?_int k⟩
  text_write _ := rfl
  text_read _ := rfl
  list_write _ _ := rfl
  list_read _ _ := rfl
  words_write _ _ _ _ := rfl
  words_read _ _ h _ ha := find?_of_nodup h ha
  record_write fs _ _ a := ⟨fs.written a, rfl, .refl _⟩
  record_read _ _ _ _ _ := rfl
  tagged_write tag vs a fs h _ := by
    refine ⟨fs, ?_, .refl _⟩
    simp only [library, h, Option.getD_some]
  tagged_read tag vs h v hv htag gs hn hgs := by
    have hfound : vs.find? (·.name.toList = v.name.toList) = some v := by
      refine find?_of_nodup (f := fun v : Variant Number _ => v.name.toList) ?_ hv
      rw [← Function.comp_def, ← List.map_map]
      exact h.map fun _ _ => String.toList_inj.1
    have hword : (object gs).read? tag text? = some v.name.toList := by rw [read?, hgs]; rfl
    simp only [library, Variant.readTagged?, hword, hfound, Option.bind_some]
  tagged_missing tag vs gs hn hgs := by
    have hword : (object gs).read? tag text? = none := by rw [read?, hgs]; rfl
    simp only [library, Variant.readTagged?, hword, Option.bind_none]

theorem Json.library_keepsNumbers : Json.library.KeepsNumbers := by
  intro x hx
  simp only [library, hx, if_true]
  rfl

theorem linear_record_read_back :
    Linear.ofJson? (.object [("note".toList, .null), ("c".toList, .number (-0)),
      ("b".toList, .number 2), ("a".toList, .number 1)]) = some ⟨1, 2, -0⟩ ∧
    Linear.ofJson? (.object [("a".toList, .number 1), ("c".toList, .number (-0))]) = none ∧
    (Linear.toJson ⟨.nan, 2, -0⟩).at? ["a"] = some .null ∧
    Linear.ofJson? (Linear.toJson ⟨.nan, 2, -0⟩) = none := by
  obtain ⟨-, -, h, -⟩ := results_read_back Json.library Json.library_lawful
    Json.library_keepsNumbers
  have hfinite : (1 : Binary64).isFinite = true ∧ (2 : Binary64).isFinite = true ∧
      (-0 : Binary64).isFinite = true := by decide +kernel
  have hwritten : Linear.toJson ⟨1, 2, -0⟩ = .object [("a".toList, .number 1),
      ("b".toList, .number 2), ("c".toList, .number (-0))] := by
    simp only [Linear.toJson, Linear.coder, Linear.fields, Json.library, Fields.written, hfinite,
      if_true]
  have hchanges : Relation.ReflTransGen Json.Change (Linear.toJson ⟨1, 2, -0⟩)
      (.object [("note".toList, .null), ("c".toList, .number (-0)), ("b".toList, .number 2),
        ("a".toList, .number 1)]) := by
    rw [hwritten]
    exact (Relation.ReflTransGen.single (.reorder (List.reverse_perm _).symm)).tail
      (.extend _ _ (by decide))
  have hloss : Json.Loss (Linear.toJson ⟨1, 2, -0⟩)
      (.object [("a".toList, .number 1), ("c".toList, .number (-0))]) := by
    rw [hwritten]
    exact .here [("a".toList, .number 1)] [("c".toList, .number (-0))] "b".toList (.number 2)
  exact ⟨h.read_back _ _ (by decide +kernel) hchanges, h.needed _ _ hloss,
    h.null _ (["a"], .nan) (by decide) rfl, h.refused _ _ (by decide +kernel) .refl⟩

end SchoolAlgebra
