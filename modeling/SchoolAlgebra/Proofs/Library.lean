import SchoolAlgebra.Proofs.JsonChanges
set_option autoImplicit false

namespace SchoolAlgebra

/-- The value at the end of a path of names. -/
def Json.at? {ν : Type} : List String → Json ν → Option (Json ν)
  | [], j => some j
  | key :: path, j => (j.field? key.toList).bind (at? path)

/-- The numbers inside a value, with the names that lead to them. -/
abbrev Located := List (List String × Binary64)

namespace Located

def under (key : String) (ns : Located) : Located := ns.map fun n => (key :: n.1, n.2)

def AllFinite (ns : Located) : Prop := ∀ n ∈ ns, n.2.isFinite = true

instance (ns : Located) : Decidable ns.AllFinite :=
  List.decidableBAll (fun n : List String × Binary64 => n.2.isFinite = true) ns

theorem allFinite_nil : AllFinite [] := by simp [AllFinite]

theorem allFinite_singleton (n : List String × Binary64) :
    AllFinite [n] ↔ n.2.isFinite = true :=
  List.forall_mem_singleton

theorem allFinite_append (ms ns : Located) :
    AllFinite (ms ++ ns) ↔ AllFinite ms ∧ AllFinite ns :=
  List.forall_mem_append

theorem allFinite_under (key : String) (ns : Located) :
    AllFinite (ns.under key) ↔ AllFinite ns :=
  List.forall_mem_map

variable {ν : Type}

/-- Where the path of a number that is not finite leads, there is `null`. -/
def NullIn (ns : Located) (j : Json ν) : Prop :=
  ∀ n ∈ ns, n.2.isFinite = false → j.at? n.1 = some .null

theorem nullIn_nil (j : Json ν) : NullIn [] j := by simp [NullIn]

theorem NullIn.append {ms ns : Located} {j : Json ν} (hm : NullIn ms j) (hn : NullIn ns j) :
    NullIn (ms ++ ns) j :=
  List.forall_mem_append.2 ⟨hm, hn⟩

theorem NullIn.under {ns : Located} {v : Json ν} (h : NullIn ns v) {key : String} {j : Json ν}
    (hj : j.field? key.toList = some v) : NullIn (ns.under key) j := by
  intro n hn
  obtain ⟨m, hm, rfl⟩ := List.mem_map.1 hn
  rw [Json.at?, hj, Option.bind_some]
  exact h m hm

end Located

/-- Of any value that holds a written one, the written one is read if its numbers are finite, and else
nothing. -/
structure Coder.Coded {ν α : Type} (c : Coder ν α) (numbers : α → Located) : Prop where
  self : ∀ a, Json.Holds (c.write a) (c.write a)
  read : ∀ a j, Json.Holds (c.write a) j →
    c.read? j = if (numbers a).AllFinite then some a else none
  firm : ∀ a, Json.Firm c.read? (c.write a)
  null : ∀ a, (numbers a).NullIn (c.write a)

/-- What is written can be changed and read back, but nothing of it can be left out, and a number that is not
finite is written as `null` and never read. -/
structure Coder.Faithful {ν α : Type} (c : Coder ν α) (numbers : α → Located) : Prop where
  read_back : ∀ a j, (numbers a).AllFinite → Relation.ReflTransGen Json.Change (c.write a) j →
    c.read? j = some a
  needed : ∀ a j, Json.Loss (c.write a) j → c.read? j = none
  null : ∀ a, ∀ n ∈ numbers a, n.2.isFinite = false → (c.write a).at? n.1 = some .null
  refused : ∀ a j, ¬(numbers a).AllFinite → Relation.ReflTransGen Json.Change (c.write a) j →
    c.read? j = none

/-- A value is written as an object whose fields are told apart by their names, and a reader of such
objects sees the loss of any field. -/
structure Coder.WritesObject {ν α : Type} (c : Coder ν α) (numbers : α → Located) (a : α)
    (gs : List (Text × Json ν)) : Prop where
  write : c.write a = .object gs
  nodup : (Json.keys gs).Nodup
  holds_self : ∀ f ∈ gs, Json.Holds f.2 f.2
  read : ∀ js, (Json.keys js).Nodup → Json.Holds (.object gs) (.object js) →
    c.read? (.object js) = if (numbers a).AllFinite then some a else none
  firm : ∀ js, (Json.keys js).Nodup → ∀ f ∈ gs,
    (∀ w, (Json.object js).field? f.1 = some w → Json.Loss f.2 w) →
    (∀ key, key ≠ f.1 → (Json.object js).field? key = (Json.object gs).field? key) →
    c.read? (.object js) = none
  null : (numbers a).NullIn (.object gs)

namespace Coder.Coded

variable {ν α : Type} {c : Coder ν α} {numbers : α → Located}

theorem faithful (h : c.Coded numbers) : c.Faithful numbers where
  read_back a j hf hc := by rw [h.read a j ((h.self a).changes hc), if_pos hf]
  needed a := h.firm a
  null a := h.null a
  refused a j hf hc := by rw [h.read a j ((h.self a).changes hc), if_neg hf]

theorem steady (h : c.Coded numbers) (a : α) : Json.Steady c.read? (c.write a) := by
  intro j hj
  rw [h.read a j hj, h.read a _ (h.self a)]

theorem of_leaf (hleaf : ∀ a, (c.write a).IsLeaf) (hread : ∀ a, c.read? (c.write a) = some a) :
    c.Coded fun _ => [] where
  self a := .leaf (hleaf a)
  read a j h := by rw [h.eq_of_isLeaf (hleaf a), hread, if_pos Located.allFinite_nil]
  firm a := .leaf (hleaf a)
  null a := Located.nullIn_nil _

theorem of_object (h : ∀ a, ∃ gs, c.WritesObject numbers a gs) : c.Coded numbers where
  self a := by
    obtain ⟨gs, hgs⟩ := h a
    rw [hgs.write]
    exact .object_self hgs.nodup hgs.holds_self
  read a j hj := by
    obtain ⟨gs, hgs⟩ := h a
    rw [hgs.write] at hj
    obtain ⟨js, rfl, hjs⟩ := hj.exists_object
    exact hgs.read js hjs hj
  firm a j hj := by
    obtain ⟨gs, hgs⟩ := h a
    rw [hgs.write] at hj
    obtain ⟨js, rfl, hjs⟩ := hj.exists_object hgs.nodup
    obtain ⟨f, hf, hloss, hothers⟩ := hj.exists_field hgs.nodup
    exact hgs.firm js hjs f hf hloss hothers
  null a := by
    obtain ⟨gs, hgs⟩ := h a
    rw [hgs.write]
    exact hgs.null

end Coder.Coded

/-- Every field has a coder that reads what it writes. The numbers are those of the fields. -/
inductive Fields.Coded {ν α : Type} : {ρ : Type} → Fields ν α ρ → (α → Located) → Prop where
  | nil : Coded .nil fun _ => []
  | cons {β ρ : Type} {name : String} {coder : Coder ν β} {get : α → β} {rest : Fields ν α ρ}
      {m : β → Located} {n : α → Located} (first : coder.Coded m) (others : rest.Coded n) :
      Coded (.cons name coder get rest) fun a => (m (get a)).under name ++ n a

namespace Fields

theorem keys_written {ν α ρ : Type} (fs : Fields ν α ρ) (a : α) :
    Json.keys (fs.written a) = fs.names := by
  induction fs with
  | nil => rfl
  | cons name coder get rest ih => exact congrArg (name.toList :: ·) ih

namespace Coded

variable {ν α ρ : Type} {fs : Fields ν α ρ} {numbers : α → Located} (h : fs.Coded numbers) (a : α)
include h

omit a in
theorem congr {ns : α → Located} (hns : numbers = ns) : fs.Coded ns := hns ▸ h

theorem holds_self : ∀ f ∈ fs.written a, Json.Holds f.2 f.2 := by
  induction h with
  | nil => simp [written]
  | cons first _ ih => exact List.forall_mem_cons.2 ⟨first.self _, ih⟩

theorem read {gs : List (Text × Json ν)} {j : Json ν} (hgs : fs.written a ⊆ gs)
    (hj : Json.Holds (.object gs) j) (make : ρ) :
    fs.read? make j = if (numbers a).AllFinite then some (fs.rebuild make a) else none := by
  -- The constructor has already been given the fields in front, so it varies with the induction.
  induction h with
  | nil => exact (if_pos Located.allFinite_nil).symm
  | @cons β ρ name coder get rest m n first others ih =>
    obtain ⟨hfirst, hrest⟩ := List.cons_subset.1 hgs
    rw [read?, hj.read?_eq hfirst (first.steady _), first.read _ _ (first.self _)]
    by_cases hm : (m (get a)).AllFinite
    · rw [if_pos hm, Option.bind_some, ih hrest]
      simp only [rebuild, Located.allFinite_append, Located.allFinite_under, hm, true_and]
    · rw [if_neg hm, Option.bind_none, if_neg]
      rw [Located.allFinite_append, Located.allFinite_under]
      exact fun hmn => hm hmn.1

theorem read_eq_none {j : Json ν} {f : Text × Json ν} (hf : f ∈ fs.written a)
    (hj : ∀ w, j.field? f.1 = some w → Json.Loss f.2 w) (make : ρ) : fs.read? make j = none := by
  induction h with
  | nil => cases hf
  | @cons β ρ name coder get rest m n first others ih =>
    rw [read?, Option.bind_eq_none_iff]
    intro b hb
    rcases List.mem_cons.1 hf with rfl | hf
    · obtain ⟨w, hw, hread⟩ := Option.bind_eq_some_iff.1 hb
      rw [first.firm _ w (hj w hw)] at hread
      cases hread
    · exact ih hf _

theorem null {gs : List (Text × Json ν)} (hgs : fs.written a ⊆ gs) (hn : (Json.keys gs).Nodup) :
    (numbers a).NullIn (.object gs) := by
  induction h with
  | nil => exact Located.nullIn_nil _
  | cons first _ ih =>
    obtain ⟨hfirst, hrest⟩ := List.cons_subset.1 hgs
    exact ((first.null _).under (Json.field?_of_mem hn hfirst)).append (ih hrest)

end Coded

end Fields

/-- A variant whose contents are read from their fields, with the tag apart from them. -/
structure Variant.Coded {ν α : Type} (tag : String) (v : Variant ν α) (numbers : α → Located) :
    Prop where
  fields : v.fields.Coded fun b => numbers (v.inject b)
  names : (tag.toList :: v.fields.names).Nodup

theorem Variant.exists_written {ν α : Type} (tag : String) {vs : List (Variant ν α)} {a : α}
    (h : ∃ v ∈ vs, (v.content? a).isSome = true) :
    ∃ v ∈ vs, ∃ b, v.content? a = some b ∧ vs.findSome? (·.written? tag a) =
      some ((tag.toList, .text v.name.toList) :: v.fields.written b) := by
  have hsome : (vs.findSome? (·.written? tag a)).isSome = true := by
    simpa [List.findSome?_isSome_iff, Variant.written?] using h
  obtain ⟨fs, hfs⟩ := Option.isSome_iff_exists.1 hsome
  obtain ⟨v, hv, hw⟩ := List.exists_of_findSome?_eq_some hfs
  obtain ⟨b, hb, rfl⟩ := Option.map_eq_some_iff.1 hw
  exact ⟨v, hv, b, hb, hfs⟩

namespace Library.Lawful

variable {ν : Type} {L : Library ν} (hL : L.Lawful)
include hL

theorem float_coded (hfloat : L.KeepsNumbers) : L.float.Coded fun x => [([], x)] := by
  have hleaf : ∀ x, (L.float.write x).IsLeaf := by
    intro x
    cases hx : x.isFinite with
    | true =>
      obtain ⟨n, hn⟩ := hL.float_finite x hx
      rw [hn]
      trivial
    | false =>
      rw [hL.float_other x hx]
      trivial
  refine ⟨fun x => .leaf (hleaf x), fun x j h => ?_, fun x => .leaf (hleaf x), fun x n hn hx => ?_⟩
  · rw [h.eq_of_isLeaf (hleaf x)]
    cases hx : x.isFinite with
    | true => rw [hfloat x hx, if_pos ((Located.allFinite_singleton _).2 hx)]
    | false =>
      rw [hL.float_other x hx, hL.float_null, if_neg]
      rw [Located.allFinite_singleton, hx]
      exact Bool.false_ne_true
  · obtain rfl := List.mem_singleton.1 hn
    rw [hL.float_other x hx, Json.at?]

theorem text_coded : L.text.Coded fun _ => [] := by
  refine .of_leaf (fun s => ?_) fun s => ?_
  · rw [hL.text_write]
    trivial
  · rw [hL.text_write, hL.text_read]

theorem int32_coded : L.int32.Coded fun _ => [] := by
  refine .of_leaf (fun k => ?_) fun k => ?_ <;> obtain ⟨n, hn, hread⟩ := hL.int32 k
  · rw [hn]
    trivial
  · rw [hn, hread]

theorem count_coded : L.count.Coded fun _ => [] := by
  refine .of_leaf (fun k => ?_) fun k => ?_ <;> obtain ⟨n, hn, hread⟩ := hL.count k
  · rw [hn]
    trivial
  · rw [hn, hread]

theorem words_coded {α : Type} {all : List α} {word : α → Text} (hall : ∀ a, a ∈ all)
    (hwords : (all.map word).Nodup) : (L.words all word).Coded fun _ => [] := by
  refine .of_leaf (fun a => ?_) fun a => ?_
  · rw [hL.words_write all word a (hall a)]
    trivial
  · rw [hL.words_write all word a (hall a), hL.words_read all word hwords a (hall a)]

theorem list_coded {α : Type} {c : Coder ν α} (h : c.Coded fun _ => []) :
    (L.list c).Coded fun _ => [] where
  self as := by
    rw [hL.list_write]
    exact .list_self (List.forall_mem_map.2 fun a _ => h.self a)
  read as j hj := by
    rw [hL.list_write] at hj
    cases hj with
    | leaf he => cases he
    | list hl =>
      rw [hL.list_read, Json.Steady.mapM_eq (List.forall_mem_map.2 fun a _ => h.steady a) hl,
        if_pos Located.allFinite_nil]
      clear hl
      induction as with
      | nil => rfl
      | cons a as ih =>
        rw [List.map_cons, List.mapM_cons, h.read a _ (h.self a), ih, if_pos Located.allFinite_nil]
        rfl
  firm as j hj := by
    rw [hL.list_write] at hj
    generalize hes : as.map c.write = es at hj
    cases hj with
    | @item vs ws v w hl =>
      have hv : v ∈ as.map c.write := by rw [hes]; simp
      obtain ⟨a, -, rfl⟩ := List.mem_map.1 hv
      rw [hL.list_read]
      exact Json.mapM_eq_none (e := w) (by simp) (h.firm a w hl)
  null as := Located.nullIn_nil _

theorem record_coded {α ρ : Type} {fs : Fields ν α ρ} {make : ρ} {numbers : α → Located}
    (h : fs.Coded numbers) (hnames : fs.names.Nodup) (hrebuild : ∀ a, fs.rebuild make a = a) :
    (L.record fs make).Coded numbers := by
  refine .of_object fun a => ?_
  obtain ⟨gs, hgs, hp⟩ := hL.record_write fs make hnames a
  have hn : (Json.keys gs).Nodup := Json.nodup_of_perm hp (fs.keys_written a ▸ hnames)
  exact ⟨gs, {
    write := hgs
    nodup := hn
    holds_self := fun f hf => h.holds_self a f (hp.mem_iff.1 hf)
    read := fun js hjs hj => by
      rw [hL.record_read fs make hnames js hjs, h.read a hp.symm.subset hj, hrebuild]
    firm := fun js hjs f hf hloss _ => by
      rw [hL.record_read fs make hnames js hjs, h.read_eq_none a (hp.mem_iff.1 hf) hloss]
    null := h.null a hp.symm.subset hn }⟩

theorem tagged_coded {α : Type} {tag : String} {vs : List (Variant ν α)} {numbers : α → Located}
    (hv : ∀ v ∈ vs, v.Coded tag numbers) (hnames : (vs.map Variant.name).Nodup)
    (hall : ∀ a, ∃ v ∈ vs, (v.content? a).isSome = true) : (L.tagged tag vs).Coded numbers := by
  refine .of_object fun a => ?_
  obtain ⟨v, hvs, b, hb, hwritten⟩ := Variant.exists_written tag (hall a)
  have hcoded := hv v hvs
  obtain rfl := v.inject_eq a b hb
  obtain ⟨hfresh, -⟩ := List.nodup_cons.1 hcoded.names
  have hkeys := hcoded.names
  rw [← v.fields.keys_written b] at hkeys
  obtain ⟨gs, hgs, hp⟩ := hL.tagged_write tag vs _ _ hwritten hkeys
  have hn : (Json.keys gs).Nodup := Json.nodup_of_perm hp hkeys
  have htag : (tag.toList, Json.text v.name.toList) ∈ gs := hp.mem_iff.2 List.mem_cons_self
  have hfields : v.fields.written b ⊆ gs := fun f hf => hp.mem_iff.2 (List.mem_cons_of_mem _ hf)
  exact ⟨gs, {
    write := hgs
    nodup := hn
    holds_self := fun f hf => by
      rcases List.mem_cons.1 (hp.mem_iff.1 hf) with rfl | hf
      · exact .leaf trivial
      · exact hcoded.fields.holds_self b f hf
    read := fun js hjs hj => by
      obtain ⟨w, hw, hheld⟩ := hj.exists_field htag
      rw [hheld.eq_of_isLeaf trivial] at hw
      rw [hL.tagged_read tag vs hnames v hvs hcoded.names js hjs hw, hcoded.fields.read b hfields hj,
        v.rebuild_eq]
      split_ifs <;> rfl
    firm := fun js hjs f hf hloss hothers => by
      rcases List.mem_cons.1 (hp.mem_iff.1 hf) with rfl | hf
      · -- Nothing can be lost inside a text, so the tag itself is not there.
        refine hL.tagged_missing tag vs js hjs (Option.eq_none_iff_forall_ne_some.2 fun w hw => ?_)
        cases hloss w hw
      · have hne : tag.toList ≠ f.1 := fun heq =>
          hfresh (heq ▸ v.fields.keys_written b ▸ List.mem_map_of_mem hf)
        have hw := (hothers _ hne).trans (Json.field?_of_mem hn htag)
        rw [hL.tagged_read tag vs hnames v hvs hcoded.names js hjs hw,
          hcoded.fields.read_eq_none b hf hloss]
        rfl
    null := hcoded.fields.null b hfields hn }⟩

end Library.Lawful

end SchoolAlgebra
