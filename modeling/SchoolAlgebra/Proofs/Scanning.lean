import SchoolAlgebra.Equation.Cursor
import SchoolAlgebra.Proofs.Grammar
set_option autoImplicit false

/-!
What a reading takes at a cursor between two texts, in terms of the readers of the rest of a text.
Every slice is there, and a whole side is read with positions as it is read without them.
-/

namespace SchoolAlgebra

namespace Cursor

/-- The cursor behind one text and in front of another. -/
def between (before rest : Text) : Cursor := ⟨before ++ rest, before.byteCount⟩

section

variable (b s w : Text)

theorem between_append : between (b ++ w) s = { between b (w ++ s) with
    position := (between b (w ++ s)).position + w.byteCount } := by
  simp [between]

theorem ahead_between : ahead (between b s) = some (s, between b s) := by
  simp [ahead, between, Text.cutAtByte?_append]

theorem since_between : since b.byteCount (between (b ++ w) s) = some (w, between (b ++ w) s) := by
  have hfront := Text.cutAtByte?_append (b ++ w) s
  simp only [since, between, hfront, bind, Option.bind, Text.cutAtByte?_append b w]

theorem here_between : here (between b s) = some (b.byteCount, between b s) := rfl

theorem goTo_between : goTo b.byteCount (between (b ++ w) s) = some ((), between b (w ++ s)) := by
  simp [goTo, between]

theorem advance_between :
    advance w.byteCount (between b (w ++ s)) = some ((), between (b ++ w) s) := by
  simp [advance, between]

theorem eat_between_nil (wanted : Char → Bool) :
    eat wanted (between b []) = some (false, between b []) := by
  simp only [eat, bind_apply, ahead_between, Option.bind_some, pure_apply]

theorem eat_between_cons (wanted : Char → Bool) (c : Char) :
    eat wanted (between b (c :: s)) =
      some (if wanted c then (true, between (b ++ [c]) s) else (false, between b (c :: s))) := by
  have hadvance : advance c.utf8Size (between b (c :: s)) = some ((), between (b ++ [c]) s) := by
    simpa using advance_between b s [c]
  simp only [eat, bind_apply, ahead_between, Option.bind_some]
  split
  · simp only [bind_apply, hadvance, Option.bind_some, pure_apply]
  · rfl

theorem eatText_between_append :
    eatText w (between b (w ++ s)) = some (true, between (b ++ w) s) := by
  have hw : w.isPrefixOf (w ++ s) = true := List.isPrefixOf_iff_prefix.2 (List.prefix_append w s)
  simp only [eatText, bind_apply, ahead_between, Option.bind_some, if_pos hw, advance_between,
    pure_apply]

theorem eatText_between_of_other (h : ¬w <+: s) :
    eatText w (between b s) = some (false, between b s) := by
  have hw : ¬w.isPrefixOf s = true := fun hw => h (List.isPrefixOf_iff_prefix.1 hw)
  simp only [eatText, bind_apply, ahead_between, Option.bind_some, if_neg hw, pure_apply]

theorem atEnd_between : atEnd (between b s) = some (decide (s = []), between b s) := by
  simp [atEnd, between, Text.byteCount_eq_zero_iff]

end

/-- What a reader leads to between two texts: over what it takes of the second, or nowhere. -/
def tried {α : Type} (reader : Reader Text) (missed : α) (found : Text → α) (b s : Text) :
    α × Cursor :=
  match reader s with
  | some (w, rest) => (found w, between (b ++ w) rest)
  | none => (missed, between b s)

section

variable {α : Type} {reader : Reader Text} {missed : α} {found : Text → α} {b s w rest : Text}

theorem tried_of_none (h : reader s = none) :
    tried reader missed found b s = (missed, between b s) := by
  rw [tried, h]

theorem tried_of_some (h : reader s = some (w, rest)) :
    tried reader missed found b s = (found w, between (b ++ w) rest) := by
  rw [tried, h]

end

section

variable (b s : Text)

theorem eatSign_between :
    eatSign (between b s) =
      some (!(Text.sign s).1.isEmpty, between (b ++ (Text.sign s).1) (Text.sign s).2) := by
  cases s with
  | nil => simp [eatSign, eat_between_nil, Text.sign]
  | cons c s =>
    rw [eatSign, eat_between_cons]
    by_cases hc : Text.isSign c = true <;> simp [Text.sign, hc]

theorem eatUnknown_between :
    eatUnknown (between b s) = some (tried Text.unknown? false (fun _ => true) b s) := by
  cases s with
  | nil => exact eat_between_nil ..
  | cons c s =>
    rw [eatUnknown, eat_between_cons]
    by_cases hc : Text.isUnknown c = true <;> simp [tried, Text.unknown?, hc]

theorem eatDigits_apply (c : Cursor) :
    eatDigits c = (eat Char.isDigit c).bind fun r =>
      if r.1 then (eatDigits r.2).map fun found => (found.1 + 1, found.2) else some (0, r.2) := by
  rw [eatDigits]
  split <;> rename_i h <;> simp [h]

theorem eatDigits_between :
    eatDigits (between b s) =
      some ((Text.digits s).1.length, between (b ++ (Text.digits s).1) (Text.digits s).2) := by
  induction s generalizing b with
  | nil =>
    rw [eatDigits_apply, eat_between_nil]
    simp [Text.digits]
  | cons c s ih =>
    rw [eatDigits_apply, eat_between_cons]
    by_cases hc : c.isDigit = true
    · simp [Text.digits, hc, ih]
    · simp [Text.digits, hc]

theorem eatPoint_between (c : Char) :
    eatPoint (between b (c :: s)) =
      some (if c = '.' then (true, between (b ++ ['.']) s) else (false, between b (c :: s))) := by
  rw [eatPoint, eat_between_cons]
  by_cases hc : c = '.' <;> simp [hc]

theorem eatPointedDigits_between :
    eatPointedDigits (between b s) =
      some ((), between (b ++ (Text.pointedDigits s).1) (Text.pointedDigits s).2) := by
  simp only [eatPointedDigits, bind_apply, eatDigits_between, Option.bind_some, Text.pointedDigits]
  cases hd : Text.digits s with
  | mk whole rest =>
    cases rest with
    | nil => simp [eatPoint, eat_between_nil, pure_apply]
    | cons c rest =>
      by_cases hc : c = '.'
      · subst hc
        simp [eatPoint_between, eatDigits_between, map_apply]
      · simp [eatPoint_between, hc, pure_apply]

theorem leading_between :
    leading (between b s) =
      some ((Text.leading s).1, between (b ++ (Text.leading s).1.text) (Text.leading s).2) := by
  simp only [leading, bind_apply, here_between, eatSign_between, eatPointedDigits_between,
    Option.bind_some, List.append_assoc, since_between, pure_apply, Text.leading,
    Prefix.text_ofText]

/-- Where a part is missed, all that was taken of it is given back. -/
theorem back_between {α : Type} (a : α) (w : Text) :
    (do goTo b.byteCount; pure a : Scan α) (between (b ++ w) s) = some (a, between b (w ++ s)) := by
  simp only [bind_apply, goTo_between, Option.bind_some, pure_apply]

theorem back_here {α : Type} (a : α) :
    (do goTo b.byteCount; pure a : Scan α) (between b s) = some (a, between b s) := by
  simpa using back_between b s a []

theorem keep_between (found : Bool) (w : Text) :
    (if found = true then pure true else do goTo b.byteCount; pure false : Scan Bool)
        (between (b ++ w) s) =
      some (if found = true then (true, between (b ++ w) s) else (false, between b (w ++ s))) := by
  cases found with
  | true => rfl
  | false => exact back_between b s false w

theorem eatNumeral_between :
    eatNumeral (between b s) = some (tried Text.numeral? false (fun _ => true) b s) := by
  have hs := Text.digits_append s
  simp only [eatNumeral, bind_apply, here_between, eatDigits_between, Option.bind_some, tried,
    Text.numeral?]
  cases hd : Text.digits s with
  | mk whole rest =>
    rw [hd] at hs
    subst hs
    cases rest with
    | nil =>
      simp only [eatPoint, eat_between_nil, Option.bind_some, pure_apply, bind_apply,
        Bool.false_eq_true, if_false, keep_between]
      by_cases hw : whole = [] <;> simp [hw]
    | cons c rest =>
      by_cases hc : c = '.'
      · subst hc
        simp only [eatPoint_between, if_true, Option.bind_some, bind_apply, map_apply,
          eatDigits_between, Option.map_some, List.append_assoc, keep_between, Text.digits_append]
        by_cases hf : (Text.digits rest).1 = [] <;> simp [hf]
      · simp only [eatPoint_between, if_neg hc, Option.bind_some, bind_apply, pure_apply,
          Bool.false_eq_true, if_false, keep_between]
        by_cases hw : whole = [] <;> simp [hw, hc]

theorem square?_of_other {c : Char} {s : Text} (h : ¬['²'] <+: s) (h' : ¬['^', '2'] <+: s) :
    Text.square? (c :: s) = none := by
  unfold Text.square?
  split
  · rename_i heq
    cases heq
    simp at h
  · rename_i heq
    cases heq
    simp at h'
  · rfl

/-- The unknown is given back where no square follows it. -/
theorem eatSquare_between :
    eatSquare (between b s) = some (tried Text.square? false (fun _ => true) b s) := by
  simp only [eatSquare, bind_apply, here_between, andM_apply, orM_apply, eatUnknown_between, tried,
    Option.bind_some]
  cases s with
  | nil => exact back_here b [] false
  | cons c s =>
    by_cases hc : Text.isUnknown c = true
    · simp only [Text.unknown?, if_pos hc, if_true]
      by_cases h : ['²'] <+: s
      · obtain ⟨r, rfl⟩ := h
        simp only [eatText_between_append, Option.bind_some, if_true, pure_apply, List.append_assoc]
        simp [Text.square?, hc]
      · simp only [eatText_between_of_other _ _ _ h, Option.bind_some, Bool.false_eq_true,
          if_false]
        by_cases h' : ['^', '2'] <+: s
        · obtain ⟨r, rfl⟩ := h'
          simp only [eatText_between_append, Option.bind_some, if_true, pure_apply,
            List.append_assoc]
          simp [Text.square?, hc]
        · simp only [eatText_between_of_other _ _ _ h', Option.bind_some, Bool.false_eq_true,
            if_false, back_between, square?_of_other h h']
          rfl
    · have hnone : Text.square? (c :: s) = none := by
        unfold Text.square?
        split <;> simp_all
      simp only [Text.unknown?, if_neg hc, Bool.false_eq_true, if_false, Option.bind_some, hnone,
        back_here]

theorem constant_between :
    constant (between b s) = some (tried Text.constant? none some b s) := by
  simp only [constant, bind_apply, here_between, andM_apply, eatSign_between, tried,
    Option.bind_some]
  cases s with
  | nil =>
    simp only [Text.sign, Text.constant?, List.isEmpty_nil, Bool.not_true, Bool.false_eq_true,
      if_false, Option.bind_some, List.append_nil, back_here]
  | cons c s =>
    by_cases hc : Text.isSign c = true
    · simp only [Text.sign, Text.constant?, if_pos hc, eatNumeral_between, tried,
        List.isEmpty_cons, Bool.not_false, if_true, Option.bind_some]
      cases hn : Text.numeral? s with
      | none => exact back_between b s none [c]
      | some n =>
        simp only [if_true, bind_apply, List.append_assoc, since_between, Option.bind_some,
          pure_apply, List.singleton_append]
    · simp only [Text.sign, Text.constant?, if_neg hc, List.isEmpty_nil, Bool.not_true,
        Bool.false_eq_true, if_false, Option.bind_some, List.append_nil, back_here]

theorem linearTerm_between_append {t v : Text} (ht : t ∈ Grammar.furtherCoefficient)
    (hv : v ∈ Grammar.unknown) :
    linearTerm (between b (t ++ v ++ s)) =
      some (some (.ofText t), between (b ++ (t ++ v)) s) := by
  obtain ⟨m, hm, p, hp, rfl⟩ := Language.mem_mul.1 ht
  obtain ⟨c, hc, rfl⟩ := Grammar.mem_sign.1 hm
  have hpointed : Text.pointedDigits (p ++ (v ++ s)) = (p, v ++ s) := by
    obtain ⟨d, hd, rfl⟩ := Grammar.mem_unknown.1 hv
    exact Grammar.pointedDigits_append hp (Grammar.endsNumber_unknown hd s)
  simp only [linearTerm, bind_apply, here_between, List.cons_append, List.nil_append,
    List.append_assoc, eatSign_between, Text.sign, if_pos hc, Option.bind_some, List.isEmpty_cons,
    Bool.not_false, if_true, eatPointedDigits_between, hpointed, since_between, eatUnknown_between,
    tried, Grammar.unknown?_append hv, pure_apply]

theorem linearTerm_between_of_none (h : Text.linearTerm? s = none) :
    linearTerm (between b s) = some (none, between b s) := by
  simp only [linearTerm, bind_apply, here_between, eatSign_between, Option.bind_some]
  cases s with
  | nil =>
    simp only [Text.sign, List.isEmpty_nil, Bool.not_true, Bool.false_eq_true, if_false,
      List.append_nil, back_here]
  | cons c s =>
    by_cases hc : Text.isSign c = true
    · have hv : Text.unknown? (Text.pointedDigits s).2 = none := by
        cases hv : Text.unknown? (Text.pointedDigits s).2 with
        | none => rfl
        | some v => simp [Text.linearTerm?, hc, hv] at h
      have hback := back_between b (Text.pointedDigits s).2 (none : Option Prefix)
        (c :: (Text.pointedDigits s).1)
      rw [List.cons_append, Text.pointedDigits_append] at hback
      simp only [Text.sign, if_pos hc, List.isEmpty_cons, Bool.not_false, if_true, bind_apply,
        eatPointedDigits_between, List.append_assoc, List.cons_append, List.nil_append,
        Option.bind_some, since_between, eatUnknown_between, tried, hv, Bool.false_eq_true,
        if_false] at hback ⊢
      exact hback
    · simp only [Text.sign, if_neg hc, List.isEmpty_nil, Bool.not_true, Bool.false_eq_true,
        if_false, List.append_nil, back_here]

end

theorem isNumeral_start (s : Text) :
    (isNumeral (start s)).map Prod.fst = some (Text.isNumeral s) := by
  have hstart : start s = between [] s := rfl
  simp only [hstart, isNumeral, bind_apply, andM_apply, eatSign_between, eatNumeral_between, tried,
    Option.bind_some, Text.isNumeral]
  cases Text.numeral? (Text.sign s).2 with
  | none => rfl
  | some n => simp [atEnd_between]

section

variable (b s : Text)

theorem exists_constant_between :
    ∃ b', constant (between b s) =
      some ((Reader.optional Text.constant? s).1,
        between b' (Reader.optional Text.constant? s).2) := by
  rw [constant_between, tried, Reader.optional]
  cases Text.constant? s with
  | none => exact ⟨b, rfl⟩
  | some k => exact ⟨b ++ k.1, rfl⟩

theorem exists_linearTerm_between :
    ∃ b', linearTerm (between b s) =
      some ((Reader.optional Text.linearTerm? s).1,
        between b' (Reader.optional Text.linearTerm? s).2) := by
  cases h : Text.linearTerm? s with
  | none => exact ⟨b, by rw [linearTerm_between_of_none b s h, Reader.optional, h]⟩
  | some r =>
    obtain ⟨p, rest⟩ := r
    obtain ⟨t, ht, v, hv, rfl, rfl⟩ := Grammar.exists_of_linearTerm? h
    exact ⟨_, by rw [linearTerm_between_append b rest ht hv, Reader.optional, h]⟩

theorem end_between {α : Type} (a : α) :
    (do if ← atEnd then return some a
        return none : Scan (Option α)) (between b s) =
      some (if s = [] then some a else none, between b s) := by
  simp only [bind_apply, atEnd_between, Option.bind_some]
  by_cases h : s = [] <;> simp [h, pure_apply]

end

theorem linearSide_start (s : Text) :
    (linearSide (start s)).map Prod.fst = some (LinearSide.read? s) := by
  have hstart : start s = between [] s := rfl
  simp only [hstart, linearSide, bind_apply, leading_between, eatUnknown_between, tried,
    Option.bind_some, LinearSide.read?]
  cases Text.unknown? (Text.leading s).2 with
  | none => rfl
  | some v =>
    obtain ⟨b, hb⟩ := exists_constant_between ([] ++ (Text.leading s).1.text ++ v.1) v.2
    have hend := end_between b (Reader.optional Text.constant? v.2).2
      (LinearSide.mk (Text.leading s).1 (Reader.optional Text.constant? v.2).1)
    simp only [if_true, bind_apply, hb, Option.bind_some] at hend ⊢
    rw [hend]
    rfl

theorem quadraticSide_start (s : Text) :
    (quadraticSide (start s)).map Prod.fst = some (QuadraticSide.read? s) := by
  have hstart : start s = between [] s := rfl
  simp only [hstart, quadraticSide, bind_apply, leading_between, eatSquare_between, tried,
    Option.bind_some, QuadraticSide.read?]
  cases Text.square? (Text.leading s).2 with
  | none => rfl
  | some v =>
    obtain ⟨b, hb⟩ := exists_linearTerm_between ([] ++ (Text.leading s).1.text ++ v.1) v.2
    obtain ⟨b', hb'⟩ := exists_constant_between b (Reader.optional Text.linearTerm? v.2).2
    have hend := end_between b'
      (Reader.optional Text.constant? (Reader.optional Text.linearTerm? v.2).2).2
      (QuadraticSide.mk (Text.leading s).1 (Reader.optional Text.linearTerm? v.2).1
        (Reader.optional Text.constant? (Reader.optional Text.linearTerm? v.2).2).1)
    simp only [if_true, bind_apply, hb, hb', Option.bind_some] at hend ⊢
    rw [hend]
    rfl

end Cursor

end SchoolAlgebra
