import SchoolAlgebra.Json.Basic
set_option autoImplicit false

/-!
What a library for JSON provides: a way to write and to read each base type, and one for a declared
type, made of the ways of its fields. The library itself is not given, only what it promises.
-/

namespace SchoolAlgebra

/-- A way to write the values of one type and to read them. -/
structure Coder (ν α : Type) where
  write : α → Json ν
  read? : Json ν → Option α

namespace Json

variable {ν : Type}

def read? {α : Type} (key : String) (f : Json ν → Option α) (j : Json ν) : Option α :=
  (j.field? key.toList).bind f

def keys (fields : List (Text × Json ν)) : List Text := fields.map Prod.fst

end Json

/-- The declared fields of a type `α`. Its constructor takes their values in this order. -/
inductive Fields (ν α : Type) : Type → Type 1 where
  | nil : Fields ν α α
  | cons {β ρ : Type} (name : String) (coder : Coder ν β) (get : α → β) (rest : Fields ν α ρ) :
      Fields ν α (β → ρ)

namespace Fields

variable {ν α : Type}

def names {ρ : Type} : Fields ν α ρ → List Text
  | nil => []
  | cons name _ _ rest => name.toList :: rest.names

def written {ρ : Type} : Fields ν α ρ → α → List (Text × Json ν)
  | nil, _ => []
  | cons name coder get rest, a => (name.toList, coder.write (get a)) :: rest.written a

/-- What the constructor makes of the fields with these names. All are needed, no other is looked at. -/
def read? {ρ : Type} : Fields ν α ρ → ρ → Json ν → Option α
  | nil, a, _ => some a
  | cons name coder _ rest, make, j => (j.read? name coder.read?).bind fun b => rest.read? (make b) j

/-- What the constructor makes of the fields of a value. -/
def rebuild {ρ : Type} : Fields ν α ρ → ρ → α → α
  | nil, b, _ => b
  | cons _ _ get rest, make, a => rest.rebuild (make (get a)) a

end Fields

/-- One constructor of a type `α`, for the contents `β` that have fields. -/
structure Variant (ν α : Type) where
  {β ρ : Type}
  name : String
  fields : Fields ν β ρ
  make : ρ
  inject : β → α
  content? : α → Option β
  rebuild_eq : ∀ b, fields.rebuild make b = b := by exact fun _ => rfl
  inject_eq : ∀ a b, content? a = some b → inject b = a := by
    intro a b h
    cases a <;> cases h <;> rfl

def Variant.written? {ν α : Type} (tag : String) (v : Variant ν α) (a : α) :
    Option (List (Text × Json ν)) :=
  (v.content? a).map fun b => (tag.toList, .text v.name.toList) :: v.fields.written b

structure Library (ν : Type) where
  float : Coder ν Binary64
  int32 : Coder ν Int32
  count : Coder ν UInt64
  text : Coder ν Text
  list {α : Type} : Coder ν α → Coder ν (List α)
  words {α : Type} : List α → (α → Text) → Coder ν α
  record {α ρ : Type} : Fields ν α ρ → ρ → Coder ν α
  /-- A type with variants. The name of the variant stands under a tag among its fields. -/
  tagged {α : Type} : String → List (Variant ν α) → Coder ν α

/-- What a library promises. Nothing is said of an order of the fields, of a name that occurs twice, or
of a list in the place of an object, and nothing of the numbers that are read from numerals. -/
structure Library.Lawful {ν : Type} (L : Library ν) : Prop where
  float_finite : ∀ x : Binary64, x.isFinite = true → ∃ n, L.float.write x = .numeral n
  float_other : ∀ x : Binary64, x.isFinite = false → L.float.write x = .null
  float_null : L.float.read? .null = none
  int32 : ∀ k, ∃ n, L.int32.write k = .numeral n ∧ L.int32.read? (.numeral n) = some k
  count : ∀ k, ∃ n, L.count.write k = .numeral n ∧ L.count.read? (.numeral n) = some k
  text_write : ∀ s, L.text.write s = .text s
  text_read : ∀ s, L.text.read? (.text s) = some s
  list_write : ∀ {α : Type} (c : Coder ν α) (as : List α),
    (L.list c).write as = .list (as.map c.write)
  list_read : ∀ {α : Type} (c : Coder ν α) (js : List (Json ν)),
    (L.list c).read? (.list js) = js.mapM c.read?
  words_write : ∀ {α : Type} (all : List α) (word : α → Text), ∀ a ∈ all,
    (L.words all word).write a = .text (word a)
  words_read : ∀ {α : Type} (all : List α) (word : α → Text), (all.map word).Nodup →
    ∀ a ∈ all, (L.words all word).read? (.text (word a)) = some a
  record_write : ∀ {α ρ : Type} (fs : Fields ν α ρ) (make : ρ), fs.names.Nodup →
    ∀ a, ∃ gs, (L.record fs make).write a = .object gs ∧ gs.Perm (fs.written a)
  record_read : ∀ {α ρ : Type} (fs : Fields ν α ρ) (make : ρ), fs.names.Nodup →
    ∀ gs : List (Text × Json ν), (Json.keys gs).Nodup →
    (L.record fs make).read? (.object gs) = fs.read? make (.object gs)
  tagged_write : ∀ {α : Type} (tag : String) (vs : List (Variant ν α)) (a : α)
    (fs : List (Text × Json ν)), vs.findSome? (·.written? tag a) = some fs → (Json.keys fs).Nodup →
    ∃ gs, (L.tagged tag vs).write a = .object gs ∧ gs.Perm fs
  tagged_read : ∀ {α : Type} (tag : String) (vs : List (Variant ν α)),
    (vs.map Variant.name).Nodup → ∀ v ∈ vs, (tag.toList :: v.fields.names).Nodup →
    ∀ gs : List (Text × Json ν), (Json.keys gs).Nodup →
    (Json.object gs).field? tag.toList = some (.text v.name.toList) →
    (L.tagged tag vs).read? (.object gs) = (v.fields.read? v.make (.object gs)).map v.inject
  tagged_missing : ∀ {α : Type} (tag : String) (vs : List (Variant ν α))
    (gs : List (Text × Json ν)), (Json.keys gs).Nodup →
    (Json.object gs).field? tag.toList = none → (L.tagged tag vs).read? (.object gs) = none

/-- A finite number is not rounded on the way. This holds where numbers are handed over as they are, and
where a text is read with full precision; a reader that is content with less does not keep it. -/
def Library.KeepsNumbers {ν : Type} (L : Library ν) : Prop :=
  ∀ x : Binary64, x.isFinite = true → L.float.read? (L.float.write x) = some x

end SchoolAlgebra
