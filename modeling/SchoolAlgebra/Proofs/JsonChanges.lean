import Mathlib.Data.List.Forall2
import Mathlib.Data.List.Nodup
import Mathlib.Logic.Relation
import SchoolAlgebra.Json.Library
set_option autoImplicit false

/-!
Changes of a JSON value that a reader of named fields should not see, the loss of one field, and when
what a reader gives is left as it is by the first and refused after the second.
-/

namespace SchoolAlgebra.Json

variable {ν : Type}

/-- The fields of an object in another order, one more field of a new name, or such a change inside a
field or inside an item of a list. -/
inductive Change : Json ν → Json ν → Prop where
  | reorder {fs gs : List (Text × Json ν)} (h : fs.Perm gs) : Change (.object fs) (.object gs)
  | extend {fs : List (Text × Json ν)} (key : Text) (value : Json ν) (h : key ∉ keys fs) :
      Change (.object fs) (.object ((key, value) :: fs))
  | field (fs gs : List (Text × Json ν)) (key : Text) {v w : Json ν} (h : Change v w) :
      Change (.object (fs ++ (key, v) :: gs)) (.object (fs ++ (key, w) :: gs))
  | item (vs ws : List (Json ν)) {v w : Json ν} (h : Change v w) :
      Change (.list (vs ++ v :: ws)) (.list (vs ++ w :: ws))

/-- One field is lost, of the object itself or of one inside it. -/
inductive Loss : Json ν → Json ν → Prop where
  | here (fs gs : List (Text × Json ν)) (key : Text) (value : Json ν) :
      Loss (.object (fs ++ (key, value) :: gs)) (.object (fs ++ gs))
  | field (fs gs : List (Text × Json ν)) (key : Text) {v w : Json ν} (h : Loss v w) :
      Loss (.object (fs ++ (key, v) :: gs)) (.object (fs ++ (key, w) :: gs))
  | item (vs ws : List (Json ν)) {v w : Json ν} (h : Loss v w) :
      Loss (.list (vs ++ v :: ws)) (.list (vs ++ w :: ws))

def IsLeaf : Json ν → Prop
  | object _ | list _ => False
  | _ => True

/-- The second value has all that the first one has. Its objects may have more fields, in any order. -/
inductive Holds : Json ν → Json ν → Prop where
  | leaf {e : Json ν} (h : e.IsLeaf) : Holds e e
  | object {fs gs : List (Text × Json ν)} (nodup : (keys gs).Nodup) (found : ∀ f ∈ fs, f.1 ∈ keys gs)
      (h : ∀ f ∈ fs, ∀ w, (f.1, w) ∈ gs → Holds f.2 w) : Holds (.object fs) (.object gs)
  | list {es js : List (Json ν)} (h : List.Forall₂ Holds es js) : Holds (.list es) (.list js)

section

variable {fs gs : List (Text × Json ν)} {key : Text} {v w : Json ν}

theorem mem_keys : key ∈ keys fs ↔ ∃ w, (key, w) ∈ fs := by
  simp [keys]

theorem nodup_keys_field (v w : Json ν) :
    (keys (fs ++ (key, v) :: gs)).Nodup ↔ (keys (fs ++ (key, w) :: gs)).Nodup := by
  simp [keys]

theorem nodup_of_perm (h : gs.Perm fs) (hn : (keys fs).Nodup) : (keys gs).Nodup :=
  (h.map Prod.fst).nodup_iff.2 hn

theorem eq_of_mem (hn : (keys fs).Nodup) (hv : (key, v) ∈ fs) (hw : (key, w) ∈ fs) : v = w :=
  congrArg Prod.snd (List.inj_on_of_nodup_map hn hv hw rfl)

theorem field?_of_mem (hn : (keys fs).Nodup) (h : (key, v) ∈ fs) :
    (object fs).field? key = some v := by
  obtain ⟨s, t, rfl⟩ := List.append_of_mem h
  rw [field?, List.lookup_eq_some_iff]
  refine ⟨s, t, rfl, fun f hf => ?_⟩
  rw [bne_iff_ne]
  rintro rfl
  rw [keys, List.map_append, List.map_cons] at hn
  exact (List.nodup_append.1 hn).2.2 f.1 (List.mem_map_of_mem hf) f.1 (by simp) rfl

theorem field?_of_not_mem (h : key ∉ keys fs) : (object fs).field? key = none := by
  rw [field?, List.lookup_eq_none_iff]
  intro f hf
  rw [bne_iff_ne]
  rintro rfl
  exact h (List.mem_map_of_mem hf)

end

namespace Holds

variable {fs : List (Text × Json ν)} {e j k : Json ν}

theorem eq_of_isLeaf (h : Holds e j) (he : e.IsLeaf) : j = e := by
  cases h with
  | leaf _ => rfl
  | object _ _ _ => cases he
  | list _ => cases he

theorem object_self (hn : (keys fs).Nodup) (h : ∀ f ∈ fs, Holds f.2 f.2) :
    Holds (.object fs) (.object fs) := by
  refine .object hn (fun f hf => List.mem_map_of_mem hf) fun f hf w hw => ?_
  rw [eq_of_mem hn hw hf]
  exact h f hf

theorem list_self {es : List (Json ν)} (h : ∀ e ∈ es, Holds e e) : Holds (.list es) (.list es) :=
  .list (List.forall₂_same.2 h)

theorem exists_field {key : Text} {v : Json ν} (h : Holds (.object fs) j) (hm : (key, v) ∈ fs) :
    ∃ w, j.field? key = some w ∧ Holds v w := by
  cases h with
  | leaf he => cases he
  | object hn hf hv =>
    obtain ⟨w, hw⟩ := mem_keys.1 (hf _ hm)
    exact ⟨w, field?_of_mem hn hw, hv _ hm w hw⟩

theorem forall₂_item {es vs ws : List (Json ν)} {v w : Json ν} (hw : ∀ e, Holds e v → Holds e w)
    (h : List.Forall₂ Holds es (vs ++ v :: ws)) : List.Forall₂ Holds es (vs ++ w :: ws) := by
  induction vs generalizing es with
  | nil =>
    cases h with
    | cons he ht => exact .cons (hw _ he) ht
  | cons u vs ih =>
    cases h with
    | cons he ht => exact .cons he (ih ht)

/-- A change takes nothing away. By induction on how deep it goes. -/
theorem change (h : Holds e j) (hc : Change j k) : Holds e k := by
  induction hc generalizing e with
  | reorder hp =>
    cases h with
    | leaf he => cases he
    | object hn hf hv =>
      refine .object ((hp.map _).nodup_iff.1 hn) (fun f hm => ?_) fun f hm w hw => ?_
      · exact (hp.map _).mem_iff.1 (hf f hm)
      · exact hv f hm w (hp.mem_iff.2 hw)
  | extend key value hkey =>
    cases h with
    | leaf he => cases he
    | object hn hf hv =>
      refine .object (List.nodup_cons.2 ⟨hkey, hn⟩) (fun f hm => ?_) fun f hm w hw => ?_
      · exact List.mem_cons_of_mem _ (hf f hm)
      · -- What is looked for was there before, and the added name was not.
        rcases List.mem_cons.1 hw with heq | hw
        · obtain ⟨rfl, rfl⟩ := Prod.mk.inj heq
          exact absurd (hf f hm) hkey
        · exact hv f hm w hw
  | field ss ts key hc ih =>
    rename_i v u
    cases h with
    | leaf he => cases he
    | object hn hf hv =>
      refine .object ((nodup_keys_field v u).1 hn) (fun f hm => ?_) fun f hm w hw => ?_
      · have hk := hf f hm
        simp only [keys, List.map_append, List.map_cons] at hk ⊢
        exact hk
      · rcases List.mem_append.1 hw with hw | hw
        · exact hv f hm w (by simp [hw])
        · rcases List.mem_cons.1 hw with heq | hw
          · obtain ⟨rfl, rfl⟩ := Prod.mk.inj heq
            exact ih (hv f hm v (by simp))
          · exact hv f hm w (by simp [hw])
  | item vs ws hc ih =>
    cases h with
    | leaf he => cases he
    | list hl => exact .list (forall₂_item (fun e he => ih he) hl)

theorem changes (h : Holds e j) (hc : Relation.ReflTransGen Change j k) : Holds e k := by
  induction hc with
  | refl => exact h
  | tail _ hstep ih => exact ih.change hstep

end Holds

/-- The reader gives for every value that holds `e` what it gives for `e`. -/
def Steady {α : Type} (f : Json ν → Option α) (e : Json ν) : Prop := ∀ j, Holds e j → f j = f e

/-- The reader refuses `e` after any loss. -/
def Firm {α : Type} (f : Json ν → Option α) (e : Json ν) : Prop := ∀ j, Loss e j → f j = none

section

variable {α : Type} {f : Json ν → Option α} {e : Json ν} {es : List (Json ν)} {fs : List (Text × Json ν)}

theorem Firm.leaf (h : e.IsLeaf) : Firm f e := by
  intro j hj
  cases hj <;> cases h

theorem Steady.mapM_eq {js : List (Json ν)} (h : ∀ e ∈ es, Steady f e)
    (hl : List.Forall₂ Holds es js) : js.mapM f = es.mapM f := by
  induction hl with
  | nil => rfl
  | cons he _ ih =>
    rw [List.forall_mem_cons] at h
    rw [List.mapM_cons, List.mapM_cons, h.1 _ he, ih h.2]

theorem mapM_eq_none (hm : e ∈ es) (h : f e = none) : es.mapM f = none := by
  obtain ⟨vs, ws, rfl⟩ := List.append_of_mem hm
  simp [List.mapM_append, List.mapM_cons, h]

theorem Holds.read?_eq {j : Json ν} (h : Holds (.object fs) j) {key : String} {v : Json ν}
    (hm : (key.toList, v) ∈ fs) (hs : Steady f v) : j.read? key f = f v := by
  obtain ⟨w, hw, hv⟩ := h.exists_field hm
  rw [read?, hw, Option.bind_some, hs w hv]

theorem Holds.exists_object {j : Json ν} (h : Holds (.object fs) j) :
    ∃ gs, j = .object gs ∧ (keys gs).Nodup := by
  cases h with
  | leaf he => cases he
  | object hn _ _ => exact ⟨_, rfl, hn⟩

theorem Loss.exists_object {j : Json ν} (h : Loss (.object fs) j) (hn : (keys fs).Nodup) :
    ∃ gs, j = .object gs ∧ (keys gs).Nodup := by
  cases h with
  | here ss ts key value =>
    refine ⟨_, rfl, hn.sublist ?_⟩
    simp [keys]
  | @field ss ts key v u _ => exact ⟨_, rfl, (nodup_keys_field v u).1 hn⟩

theorem Loss.exists_field {j : Json ν} (h : Loss (.object fs) j) (hn : (keys fs).Nodup) :
    ∃ f ∈ fs, (∀ w, j.field? f.1 = some w → Loss f.2 w) ∧
      ∀ key, key ≠ f.1 → j.field? key = (object fs).field? key := by
  cases h with
  | here ss ts key value =>
    have hkey : key ∉ keys (ss ++ ts) := by
      simp only [keys, List.map_append, List.map_cons] at hn ⊢
      exact (List.nodup_middle.1 hn).notMem
    refine ⟨(key, value), by simp, fun w hw => ?_, fun other ho => ?_⟩
    · rw [field?_of_not_mem hkey] at hw
      cases hw
    · have hne : (other == key) = false := beq_eq_false_iff_ne.2 ho
      simp [field?, List.lookup_append, List.lookup_cons, hne]
  | @field ss ts key v u hl =>
    have hu : (object (ss ++ (key, u) :: ts)).field? key = some u :=
      field?_of_mem ((nodup_keys_field v u).1 hn) (by simp)
    refine ⟨(key, v), by simp, fun w hw => ?_, fun other ho => ?_⟩
    · rw [hu] at hw
      obtain rfl := Option.some.inj hw
      exact hl
    · have hne : (other == key) = false := beq_eq_false_iff_ne.2 ho
      simp [field?, List.lookup_append, List.lookup_cons, hne]

end

end SchoolAlgebra.Json
