import SchoolAlgebra.Json.Library
set_option autoImplicit false

/-!
A library over the program's own JSON values. Beyond what is promised of every library, a list may
stand in the place of an object, and a name may stand as the one key of an object.
-/

namespace SchoolAlgebra

namespace Json

def int32? (j : Json) : Option Int32 := do
  let n ← j.int?
  if Int32.minValue.toInt ≤ n ∧ n ≤ Int32.maxValue.toInt then some (.ofInt n) else none

def count? (j : Json) : Option UInt64 := do
  let n ← j.int?
  if 0 ≤ n ∧ n < 18446744073709551616 then some (.ofNat n.toNat) else none

def word? : Json → Option Text
  | text s => some s
  | object [(s, null)] => some s
  | _ => none

end Json

def Fields.readItems? {ν α ρ : Type} : Fields ν α ρ → ρ → List (Json ν) → Option α
  | nil, a, [] => some a
  | cons _ coder _ rest, make, j :: js =>
    (coder.read? j).bind fun b => rest.readItems? (make b) js
  | _, _, _ => none

def Fields.readRecord? {ν α ρ : Type} (fs : Fields ν α ρ) (make : ρ) : Json ν → Option α
  | .object gs => fs.read? make (.object gs)
  | .list js => fs.readItems? make js
  | _ => none

def Variant.readTagged? {ν α : Type} (tag : String) (vs : List (Variant ν α)) :
    Json ν → Option α
  | .object gs =>
    ((Json.object gs).read? tag Json.text?).bind fun s =>
      (vs.find? (·.name.toList = s)).bind fun v =>
        (v.fields.read? v.make (.object gs)).map v.inject
  | .list (.text s :: js) =>
    (vs.find? (·.name.toList = s)).bind fun v => (v.fields.readItems? v.make js).map v.inject
  | _ => none

/-- A number that is not finite is written as `null`. A list is read whole or not at all. -/
def Json.library : Library Json.Number where
  float := ⟨fun x => if x.isFinite then .number x else .null, number?⟩
  int32 := ⟨fun k => .int k.toInt, int32?⟩
  count := ⟨fun k => .int k.toNat, count?⟩
  text := ⟨.text, text?⟩
  list c := ⟨fun as => .list (as.map c.write), fun j => j.list?.bind fun js => js.mapM c.read?⟩
  words all word :=
    ⟨fun a => .text (word a), fun j => j.word?.bind fun s => all.find? (word · = s)⟩
  record fs make := ⟨fun a => .object (fs.written a), fs.readRecord? make⟩
  tagged tag vs :=
    ⟨fun a => .object ((vs.findSome? (·.written? tag a)).getD []), Variant.readTagged? tag vs⟩

end SchoolAlgebra
