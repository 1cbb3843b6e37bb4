import SchoolAlgebra.Proofs.Scanning
set_option autoImplicit false

namespace SchoolAlgebra

namespace Cursor

/-- At the cursor `c`, a reading takes a start of the text ahead that is in `l`, wherever the reader
finds one, and returns what `found` says of that start; elsewhere it returns `missed` and leaves the
cursor as it is. -/
def AllOrNothing {α β : Type} (scan : Scan α) (reader : Reader β) (missed : α) (found : Text → α)
    (l : Language Char) (c : Cursor) : Prop :=
  ∃ s, ahead c = some (s, c) ∧
    match reader s with
    | some (_, rest) => ∃ w : Text, w ∈ l ∧ w ≠ [] ∧ w ++ rest = s ∧
        scan c = some (found w, { c with position := c.position + w.byteCount })
    | none => scan c = some (missed, c)

theorem allOrNothing_of_tried {α : Type} {scan : Scan α} {reader : Reader Text} {missed : α}
    {found : Text → α} {l : Language Char} {b s : Text}
    (hscan : scan (between b s) = some (tried reader missed found b s))
    (happend : ∀ w rest, reader s = some (w, rest) → w ++ rest = s)
    (hmem : ∀ w rest, reader s = some (w, rest) → w ∈ l) (hnil : [] ∉ l) :
    AllOrNothing scan reader missed found l (between b s) := by
  refine ⟨s, ahead_between b s, ?_⟩
  cases hr : reader s with
  | none =>
    rw [tried_of_none hr] at hscan
    exact hscan
  | some r =>
    obtain ⟨w, rest⟩ := r
    have hw := hmem w rest hr
    have hs := happend w rest hr
    refine ⟨w, hw, fun h => hnil (h ▸ hw), hs, ?_⟩
    rw [hscan, tried_of_some hr, between_append, hs]

theorem nil_not_mem_square : [] ∉ Grammar.square := by
  intro h
  obtain ⟨c, -, h | h⟩ := Grammar.mem_square.1 h <;> cases h

theorem nil_not_mem_numeral : [] ∉ Grammar.numeral := by
  intro h
  obtain ⟨w, -, ⟨rfl, hw⟩ | ⟨f, -, -, h⟩⟩ := Grammar.mem_numeral.1 h
  · exact hw rfl
  · simp at h

theorem nil_not_mem_constant : [] ∉ Grammar.constant := by
  intro h
  obtain ⟨m, hm, n, -, hmn⟩ := Language.mem_mul.1 h
  obtain ⟨c, -, rfl⟩ := Grammar.mem_sign.1 hm
  cases hmn

theorem allOrNothing_linearTerm (b s : Text) :
    AllOrNothing linearTerm Text.linearTerm? none (fun w => some (.ofText w.dropLast))
      (Grammar.furtherCoefficient * Grammar.unknown) (between b s) := by
  refine ⟨s, ahead_between b s, ?_⟩
  cases h : Text.linearTerm? s with
  | none => exact linearTerm_between_of_none b s h
  | some r =>
    obtain ⟨t, ht, v, hv, rfl, -⟩ := Grammar.exists_of_linearTerm? h
    have hscan := linearTerm_between_append b r.2 ht hv
    rw [between_append] at hscan
    obtain ⟨d, -, rfl⟩ := Grammar.mem_unknown.1 hv
    refine ⟨t ++ [d], Language.append_mem_mul ht hv, by simp, rfl, ?_⟩
    simp only [hscan, List.dropLast_concat]

inductive Operation where
  | eat (wanted : Char → Bool)
  | eatText (token : Text)
  | digits
  | square
  | pointedDigits
  | numeral
  | constant
  | linearTerm
  | leading

def Operation.run (op : Operation) (c : Cursor) : Option Cursor :=
  match op with
  | eat wanted => (Cursor.eat wanted c).map Prod.snd
  | eatText token => (Cursor.eatText token c).map Prod.snd
  | digits => (eatDigits c).map Prod.snd
  | square => (eatSquare c).map Prod.snd
  | pointedDigits => (eatPointedDigits c).map Prod.snd
  | numeral => (eatNumeral c).map Prod.snd
  | constant => (Cursor.constant c).map Prod.snd
  | linearTerm => (Cursor.linearTerm c).map Prod.snd
  | leading => (Cursor.leading c).map Prod.snd

/-- The cursors that operations lead to from the start of a text. -/
inductive Reachable : Cursor → Prop where
  | start (s : Text) : Reachable (start s)
  | step {c next : Cursor} (op : Operation) (h : Reachable c) (hrun : op.run c = some next) :
      Reachable next

/-- The second cursor is as far in the same text as the first, or behind a start of the text ahead
of it. -/
def Follows (c next : Cursor) : Prop :=
  ∃ b w rest, c = between b (w ++ rest) ∧ next = between (b ++ w) rest

section

variable (b s : Text)

theorem follows_self : Follows (between b s) (between b s) :=
  ⟨b, [], s, rfl, by rw [List.append_nil]⟩

variable {s}

theorem follows_of_append {w rest : Text} (h : w ++ rest = s) :
    Follows (between b s) (between (b ++ w) rest) :=
  ⟨b, w, rest, by rw [h], rfl⟩

theorem follows_tried {α : Type} {reader : Reader Text} {missed : α} {found : Text → α}
    (happend : ∀ w rest, reader s = some (w, rest) → w ++ rest = s) :
    Follows (between b s) (tried reader missed found b s).2 := by
  cases hr : reader s with
  | none =>
    rw [tried_of_none hr]
    exact follows_self b s
  | some r =>
    rw [tried_of_some hr]
    exact follows_of_append b (happend r.1 r.2 hr)

variable (s)

theorem exists_next {α : Type} {scan : Scan α} {c next : Cursor} {a : α}
    (hscan : scan c = some (a, next)) (h : Follows c next) :
    ∃ n, (scan c).map Prod.snd = some n ∧ Follows c n :=
  ⟨next, by rw [hscan, Option.map_some], h⟩

theorem follows_eat (wanted : Char → Bool) :
    ∃ next, (eat wanted (between b s)).map Prod.snd = some next ∧ Follows (between b s) next := by
  cases s with
  | nil => exact exists_next (eat_between_nil b wanted) (follows_self b [])
  | cons c s =>
    rw [eat_between_cons]
    by_cases hc : wanted c = true
    · rw [if_pos hc]
      exact ⟨_, rfl, follows_of_append b rfl⟩
    · rw [if_neg hc]
      exact ⟨_, rfl, follows_self b (c :: s)⟩

theorem follows_eatText (token : Text) :
    ∃ next, (eatText token (between b s)).map Prod.snd = some next ∧
      Follows (between b s) next := by
  by_cases h : token <+: s
  · obtain ⟨rest, rfl⟩ := h
    exact exists_next (eatText_between_append b rest token) (follows_of_append b rfl)
  · exact exists_next (eatText_between_of_other b s token h) (follows_self b s)

theorem follows_linearTerm :
    ∃ next, (linearTerm (between b s)).map Prod.snd = some next ∧ Follows (between b s) next := by
  cases h : Text.linearTerm? s with
  | none => exact exists_next (linearTerm_between_of_none b s h) (follows_self b s)
  | some r =>
    obtain ⟨t, ht, v, hv, rfl, -⟩ := Grammar.exists_of_linearTerm? h
    exact exists_next (linearTerm_between_append b r.2 ht hv) (follows_of_append b rfl)

theorem exists_run (op : Operation) :
    ∃ next, op.run (between b s) = some next ∧ Follows (between b s) next := by
  cases op with
  | eat wanted => exact follows_eat b s wanted
  | eatText token => exact follows_eatText b s token
  | digits =>
    exact exists_next (eatDigits_between b s) (follows_of_append b (Text.digits_append s))
  | square =>
    exact exists_next (eatSquare_between b s) (follows_tried b fun _ _ => Text.append_of_square?)
  | pointedDigits =>
    exact exists_next (eatPointedDigits_between b s)
      (follows_of_append b (Text.pointedDigits_append s))
  | numeral =>
    exact exists_next (eatNumeral_between b s) (follows_tried b fun _ _ => Text.append_of_numeral?)
  | constant =>
    exact exists_next (constant_between b s) (follows_tried b fun _ _ => Text.append_of_constant?)
  | linearTerm => exact follows_linearTerm b s
  | leading => exact exists_next (leading_between b s) (follows_of_append b (Text.leading_append s))

end

theorem Reachable.exists_between {c : Cursor} (h : c.Reachable) : ∃ b s, c = between b s := by
  -- Along the run every cursor has some text behind it and the rest ahead.
  induction h with
  | start s => exact ⟨[], s, rfl⟩
  | step op _ hrun ih =>
    obtain ⟨b, s, rfl⟩ := ih
    obtain ⟨_, hnext, b', w, rest, _, rfl⟩ := exists_run b s op
    exact ⟨_, _, Option.some.inj (hrun.symm.trans hnext)⟩

/-- What holds at a cursor in front of each part of a side, and of each operation. -/
structure ReadsWhole (c : Cursor) : Prop where
  between : ∃ before rest, c = between before rest
  square : AllOrNothing eatSquare Text.square? false (fun _ => true) Grammar.square c
  numeral : AllOrNothing eatNumeral Text.numeral? false (fun _ => true) Grammar.numeral c
  constant : AllOrNothing Cursor.constant Text.constant? none some Grammar.constant c
  linearTerm : AllOrNothing Cursor.linearTerm Text.linearTerm? none
    (fun w => some (.ofText w.dropLast)) (Grammar.furtherCoefficient * Grammar.unknown) c
  /-- Every slice that an operation asks for is there, and it does not go back. -/
  run : ∀ op : Operation, ∃ next, op.run c = some next ∧ next.text = c.text ∧
    c.position ≤ next.position ∧ next.position ≤ next.text.byteCount ∧
      ∃ before rest, next = Cursor.between before rest

theorem readsWhole_between (b s : Text) : ReadsWhole (between b s) where
  between := ⟨b, s, rfl⟩
  square := allOrNothing_of_tried (eatSquare_between b s) (fun _ _ => Text.append_of_square?)
    (fun _ _ => Grammar.square_of_square?) nil_not_mem_square
  numeral := allOrNothing_of_tried (eatNumeral_between b s)
    (fun _ _ => Text.append_of_numeral?) (fun _ _ => Grammar.numeral_of_numeral?)
    nil_not_mem_numeral
  constant := allOrNothing_of_tried (constant_between b s)
    (fun _ _ => Text.append_of_constant?) (fun _ _ => Grammar.constant_of_constant?)
    nil_not_mem_constant
  linearTerm := allOrNothing_linearTerm b s
  run op := by
    obtain ⟨next, hnext, b', w, rest, hc, rfl⟩ := exists_run b s op
    refine ⟨_, hnext, ?_⟩
    rw [hc]
    refine ⟨by simp [Cursor.between], by simp [Cursor.between], by simp [Cursor.between], _, _, rfl⟩

/-- Wherever operations lead from the start of a text, each part is taken whole or not at all and no
slice is missing; and a whole side is read as it is without positions. -/
theorem cursor_reads_whole_parts :
    (∀ c : Cursor, c.Reachable → c.ReadsWhole) ∧
    (∀ s, (isNumeral (start s)).map Prod.fst = some (Text.isNumeral s)) ∧
    (∀ s, (linearSide (start s)).map Prod.fst = some (LinearSide.read? s)) ∧
    (∀ s, (quadraticSide (start s)).map Prod.fst = some (QuadraticSide.read? s)) := by
  refine ⟨fun c h => ?_, isNumeral_start, linearSide_start, quadraticSide_start⟩
  obtain ⟨b, s, rfl⟩ := h.exists_between
  exact readsWhole_between b s

theorem behind_square_reads_whole :
    Reachable ⟨"x²-5.".toList, 3⟩ ∧ ReadsWhole ⟨"x²-5.".toList, 3⟩ ∧
      Cursor.constant ⟨"x²-5.".toList, 3⟩ = some (none, ⟨"x²-5.".toList, 3⟩) := by
  have hstart : Reachable (start "x²-5.".toList) := .start _
  have hsquare : Reachable ⟨"x²-5.".toList, 3⟩ := .step .square hstart (by decide +kernel)
  have hreads := cursor_reads_whole_parts.1 _ hsquare
  have hahead : ahead ⟨"x²-5.".toList, 3⟩ = some ("-5.".toList, ⟨"x²-5.".toList, 3⟩) := by
    decide +kernel
  obtain ⟨s, hs, hconstant⟩ := hreads.constant
  obtain rfl := (Prod.mk.inj (Option.some.inj (hahead.symm.trans hs))).1
  exact ⟨hsquare, hreads, hconstant⟩

end Cursor

end SchoolAlgebra
