import SchoolAlgebra.Proofs.Restatement
set_option autoImplicit false

/-!
The text of a polynomial tells its coefficients, up to the signs of zeros. A term is read off the
start of the text without a look at the next one, so two texts are equal only term by term; and the
powers go down, so the terms that are written say which ones are not.
-/

namespace SchoolAlgebra

namespace Binary64

theorem Agrees.abs_eq {x y : Binary64} (h : x.Agrees y) : x.abs = y.abs := by
  rcases h with rfl | ⟨hx, hy⟩
  · rfl
  · obtain ⟨s, rfl⟩ := exists_zero hx
    obtain ⟨t, rfl⟩ := exists_zero hy
    rfl

theorem Agrees.isNegative {x y : Binary64} (h : x.Agrees y) : x.isNegative = y.isNegative := by
  rw [Binary64.isNegative, Binary64.isNegative, lt, lt, h.le (.refl zero), (Agrees.refl zero).le h]

theorem agrees_of_isNegative {s t : Sign} {m : Magnitude}
    (h : (finite s m).isNegative = (finite t m).isNegative) : (finite s m).Agrees (finite t m) := by
  cases hz : m.isZero with
  | true => exact .of_isZero hz hz
  | false =>
    rw [Bool.eq_iff_iff, isNegative_finite, isNegative_finite] at h
    cases s <;> cases t <;> first | exact .refl _ | simp [hz] at h

end Binary64

namespace Polynomial

/-- The digits of a term: of a unit none, unless no power follows. -/
def digitsText (m : Magnitude) (k : Nat) : Text := if k = 0 then m.plain else m.coefficientText

theorem body_finite (s : Sign) (m : Magnitude) (k : Nat) :
    body (.finite s m) k = digitsText m k ++ power k := by
  unfold digitsText
  split_ifs with hk
  · rw [hk, body_constant]
    exact (List.append_nil _).symm
  · exact body_power s m (Nat.pos_of_ne_zero hk)

theorem digitsText_mem (m : Magnitude) (k : Nat) : digitsText m k ∈ Grammar.pointedDigits := by
  unfold digitsText
  split_ifs
  · exact Grammar.pointedDigits_of_numeral m.plain_mem
  · exact m.coefficientText_mem

theorem digitsText_injective (k : Nat) : Function.Injective fun m => digitsText m k := by
  intro m n h
  have hmark : [] ∈ Grammar.optional Grammar.sign := .inl rfl
  by_cases hk : k = 0
  · simp only [digitsText, if_pos hk] at h
    have hm := m.number_plain hmark
    rw [h, n.number_plain hmark] at hm
    exact (Binary64.finite.inj hm).2.symm
  · simp only [digitsText, if_neg hk] at h
    have hm := m.coefficientNumber_text hmark
    rw [h, n.coefficientNumber_text hmark] at hm
    exact (Binary64.finite.inj hm).2.symm

/-- Behind a term the text ends, or a blank comes. -/
def EndsTerm (r : Text) : Prop := ∀ c ∈ r.head?, c = ' '

theorem endsTerm_further (ts : List (Binary64 × Nat)) : EndsTerm (ts.flatMap furtherTerm) := by
  cases ts with
  | nil => simp [EndsTerm]
  | cons t ts => cases h : t.1.isNegative <;> simp [EndsTerm, furtherTerm, h]

theorem endsNumber_power {r : Text} (hr : EndsTerm r) (k : Nat) :
    Grammar.EndsNumber (power k ++ r) := by
  match k with
  | 0 =>
    intro c hc
    obtain rfl := hr c hc
    exact ⟨rfl, by decide⟩
  | 1 | _ + 2 => exact Grammar.endsNumber_unknown rfl _

theorem EndsTerm.ne_cons {r : Text} (hr : EndsTerm r) {c : Char} (hc : c ≠ ' ') (a : Text) :
    r ≠ c :: a :=
  fun h => hc (hr c (h ▸ rfl))

theorem power_append_inj {k l : Nat} (hk : k ≤ 2) (hl : l ≤ 2) {r r' : Text} (hr : EndsTerm r)
    (hr' : EndsTerm r') (h : power k ++ r = power l ++ r') : k = l ∧ r = r' := by
  match k, l with
  | 0, 0 => exact ⟨rfl, h⟩
  | 1, 1 => exact ⟨rfl, (List.cons.inj h).2⟩
  | 2, 2 => exact ⟨rfl, List.append_cancel_left h⟩
  | 0, 1 | 0, 2 => exact absurd h (hr.ne_cons (by decide) _)
  | 1, 0 | 2, 0 => exact absurd h.symm (hr'.ne_cons (by decide) _)
  | 1, 2 => exact absurd (List.cons.inj h).2 (hr.ne_cons (by decide) _)
  | 2, 1 => exact absurd (List.cons.inj h).2.symm (hr'.ne_cons (by decide) _)
  | _ + 3, _ | _, _ + 3 => omega

theorem body_append_inj {s t : Sign} {m n : Magnitude} {k l : Nat} (hk : k ≤ 2) (hl : l ≤ 2)
    {r r' : Text} (hr : EndsTerm r) (hr' : EndsTerm r')
    (h : body (.finite s m) k ++ r = body (.finite t n) l ++ r') : m = n ∧ k = l ∧ r = r' := by
  rw [body_finite, body_finite, List.append_assoc, List.append_assoc] at h
  have hd := Grammar.pointedDigits_append (digitsText_mem m k) (endsNumber_power hr k)
  rw [h, Grammar.pointedDigits_append (digitsText_mem n l) (endsNumber_power hr' l)] at hd
  obtain ⟨hdigits, hrest⟩ := Prod.mk.inj hd
  obtain ⟨rfl, rfl⟩ := power_append_inj hl hk hr' hr hrest
  exact ⟨(digitsText_injective l hdigits).symm, rfl, rfl⟩

theorem isSign_head?_body (s : Sign) (m : Magnitude) (k : Nat) {r : Text} (hr : EndsTerm r) :
    ∀ c ∈ (body (.finite s m) k ++ r).head?, Text.isSign c = false := by
  intro c hc
  rw [body_finite, List.append_assoc] at hc
  cases hd : digitsText m k with
  | cons d ds =>
    rw [hd] at hc
    exact Grammar.isSign_head_pointedDigits (digitsText_mem m k) c (by rw [hd]; exact hc)
  | nil =>
    rw [hd, List.nil_append] at hc
    match k with
    | 0 =>
      obtain rfl := hr c hc
      rfl
    | 1 | _ + 2 =>
      obtain rfl := Option.some.inj hc
      rfl

/-- A term that is written as one: a finite coefficient, and no power above the square. -/
structure IsTerm (t : Binary64 × Nat) : Prop where
  isFinite : t.1.isFinite = true
  power_le : t.2 ≤ 2

theorem head?_body_ne_minus {t : Binary64 × Nat} (ht : IsTerm t) {r : Text} (hr : EndsTerm r) :
    (body t.1 t.2 ++ r).head? ≠ some '-' := by
  obtain ⟨s, m, hc⟩ := Binary64.exists_finite ht.isFinite
  rw [hc]
  exact fun h => absurd (isSign_head?_body s m t.2 hr '-' h) (by decide)

structure SameTerm (t u : Binary64 × Nat) : Prop where
  agrees : t.1.Agrees u.1
  power_eq : t.2 = u.2

theorem sameTerm_iff {c d : Binary64} {k l : Nat} (h : k = l) :
    SameTerm (c, k) (d, l) ↔ c.Agrees d :=
  ⟨SameTerm.agrees, fun hcd => ⟨hcd, h⟩⟩

theorem SameTerm.symm {t u : Binary64 × Nat} (h : SameTerm t u) : SameTerm u t :=
  ⟨h.agrees.symm, h.power_eq.symm⟩

section

variable {t u : Binary64 × Nat} {r r' : Text}

theorem SameTerm.body_eq (h : SameTerm t u) : body t.1 t.2 = body u.1 u.2 := by
  rw [body, body, h.agrees.abs_eq, h.power_eq]

theorem SameTerm.leadingTerm_eq (h : SameTerm t u) : leadingTerm t = leadingTerm u := by
  rw [leadingTerm, leadingTerm, h.agrees.isNegative, h.body_eq]

theorem SameTerm.furtherTerm_eq (h : SameTerm t u) : furtherTerm t = furtherTerm u := by
  rw [furtherTerm, furtherTerm, h.agrees.isNegative, h.body_eq]

variable (ht : IsTerm t) (hu : IsTerm u) (hr : EndsTerm r) (hr' : EndsTerm r')
include ht hu hr hr'

theorem sameTerm_of_body (hneg : t.1.isNegative = u.1.isNegative)
    (h : body t.1 t.2 ++ r = body u.1 u.2 ++ r') : SameTerm t u ∧ r = r' := by
  obtain ⟨c, k⟩ := t
  obtain ⟨d, l⟩ := u
  obtain ⟨s, m, rfl⟩ := Binary64.exists_finite ht.isFinite
  obtain ⟨s', n, rfl⟩ := Binary64.exists_finite hu.isFinite
  obtain ⟨rfl, rfl, rfl⟩ := body_append_inj ht.power_le hu.power_le hr hr' h
  exact ⟨⟨Binary64.agrees_of_isNegative hneg, rfl⟩, rfl⟩

/-- Only a minus is a sign at the start, and no body begins with one. -/
theorem sameTerm_of_leadingTerm (h : leadingTerm t ++ r = leadingTerm u ++ r') :
    SameTerm t u ∧ r = r' := by
  have hb := head?_body_ne_minus ht hr
  have hb' := head?_body_ne_minus hu hr'
  unfold leadingTerm at h
  cases hneg : t.1.isNegative <;> cases hneg' : u.1.isNegative <;> rw [hneg, hneg'] at h
  · exact sameTerm_of_body ht hu hr hr' (hneg.trans hneg'.symm) h
  · rw [show body t.1 t.2 ++ r = '-' :: (body u.1 u.2 ++ r') from h] at hb
    exact absurd rfl hb
  · rw [← show '-' :: (body t.1 t.2 ++ r) = body u.1 u.2 ++ r' from h] at hb'
    exact absurd rfl hb'
  · exact sameTerm_of_body ht hu hr hr' (hneg.trans hneg'.symm) (List.cons.inj h).2

theorem sameTerm_of_furtherTerm (h : furtherTerm t ++ r = furtherTerm u ++ r') :
    SameTerm t u ∧ r = r' := by
  cases hneg : t.1.isNegative <;> cases hneg' : u.1.isNegative <;>
    simp [furtherTerm, hneg, hneg'] at h
  · exact sameTerm_of_body ht hu hr hr' (hneg.trans hneg'.symm) h
  · exact sameTerm_of_body ht hu hr hr' (hneg.trans hneg'.symm) h

end

theorem sameTerms_of_further {ts us : List (Binary64 × Nat)} (hts : ∀ t ∈ ts, IsTerm t)
    (hus : ∀ u ∈ us, IsTerm u) (h : ts.flatMap furtherTerm = us.flatMap furtherTerm) :
    List.Forall₂ SameTerm ts us := by
  induction ts generalizing us with
  | nil =>
    cases us with
    | nil => exact .nil
    | cons u us => cases hneg : u.1.isNegative <;> simp [furtherTerm, hneg] at h
  | cons t ts ih =>
    cases us with
    | nil => cases hneg : t.1.isNegative <;> simp [furtherTerm, hneg] at h
    | cons u us =>
      obtain ⟨ht, hts⟩ := List.forall_mem_cons.1 hts
      obtain ⟨hu, hus⟩ := List.forall_mem_cons.1 hus
      obtain ⟨hsame, hrest⟩ :=
        sameTerm_of_furtherTerm ht hu (endsTerm_further ts) (endsTerm_further us) h
      exact .cons hsame (ih hts hus hrest)

theorem furtherTerms_eq {ts us : List (Binary64 × Nat)} (h : List.Forall₂ SameTerm ts us) :
    ts.flatMap furtherTerm = us.flatMap furtherTerm := by
  induction h with
  | nil => rfl
  | cons h _ ih => rw [List.flatMap_cons, List.flatMap_cons, h.furtherTerm_eq, ih]

theorem joined_cons_eq_iff {t u : Binary64 × Nat} {ts us : List (Binary64 × Nat)}
    (hts : ∀ v ∈ t :: ts, IsTerm v) (hus : ∀ v ∈ u :: us, IsTerm v) :
    joined (t :: ts) = joined (u :: us) ↔ List.Forall₂ SameTerm (t :: ts) (u :: us) := by
  obtain ⟨ht, hts⟩ := List.forall_mem_cons.1 hts
  obtain ⟨hu, hus⟩ := List.forall_mem_cons.1 hus
  constructor
  · intro h
    obtain ⟨hsame, hrest⟩ :=
      sameTerm_of_leadingTerm ht hu (endsTerm_further ts) (endsTerm_further us) h
    exact .cons hsame (sameTerms_of_further hts hus hrest)
  · intro h
    obtain ⟨hsame, hrest⟩ := List.forall₂_cons.1 h
    rw [joined, joined, hsame.leadingTerm_eq, furtherTerms_eq hrest]

/-- No terms at all are written as a zero is. -/
theorem joined_nil_ne {u : Binary64 × Nat} {us : List (Binary64 × Nat)}
    (hus : ∀ v ∈ u :: us, IsTerm v) (hu : u.1.isZero = false) : joined [] ≠ joined (u :: us) := by
  have hzero : ∀ v ∈ [((0 : Binary64), 0)], IsTerm v := by
    intro v hv
    rw [List.mem_singleton.1 hv]
    exact ⟨by decide +kernel, Nat.zero_le 2⟩
  have hjoined : joined [] = joined [((0 : Binary64), 0)] := by decide +kernel
  intro h
  obtain ⟨hsame, -⟩ := List.forall₂_cons.1 ((joined_cons_eq_iff hzero hus).1 (hjoined.symm.trans h))
  rw [← hsame.agrees.isZero] at hu
  exact absurd hu (by decide +kernel)

theorem joined_eq_iff {ts us : List (Binary64 × Nat)} (hts : ∀ t ∈ ts, IsTerm t)
    (hus : ∀ u ∈ us, IsTerm u) (hts0 : ∀ t ∈ ts, t.1.isZero = false)
    (hus0 : ∀ u ∈ us, u.1.isZero = false) :
    joined ts = joined us ↔ List.Forall₂ SameTerm ts us := by
  cases ts with
  | nil =>
    cases us with
    | nil => simp
    | cons u us => simp [joined_nil_ne hus (hus0 u (by simp))]
  | cons t ts =>
    cases us with
    | nil => simp [(joined_nil_ne hts (hts0 t (by simp))).symm]
    | cons u us => exact joined_cons_eq_iff hts hus

theorem nonzero_terms_cons (c : Binary64) (cs : List Binary64) :
    nonzero (terms (c :: cs)) =
      if c.isZero then nonzero (terms cs) else (c, cs.length) :: nonzero (terms cs) := by
  cases h : c.isZero <;> simp [terms, nonzero, h]

theorem mem_terms {cs : List Binary64} {t : Binary64 × Nat} (h : t ∈ terms cs) :
    t.1 ∈ cs ∧ t.2 < cs.length := by
  induction cs with
  | nil => cases h
  | cons c cs ih =>
    rcases List.mem_cons.1 h with rfl | h
    · exact ⟨List.mem_cons_self, Nat.lt_succ_self _⟩
    · obtain ⟨hc, hlt⟩ := ih h
      exact ⟨List.mem_cons_of_mem _ hc, Nat.lt_succ_of_lt hlt⟩

theorem mem_nonzero {ts : List (Binary64 × Nat)} {t : Binary64 × Nat} :
    t ∈ nonzero ts ↔ t ∈ ts ∧ t.1.isZero = false := by
  simp [nonzero]

/-- The terms behind a power are all below it. -/
theorem not_sameTerms_cons {c : Binary64} {p : List Binary64} {n : Nat} (hn : p.length = n)
    {us : List (Binary64 × Nat)} : ¬List.Forall₂ SameTerm (nonzero (terms p)) ((c, n) :: us) := by
  intro h
  obtain ⟨t, ts, hsame, -, ht⟩ := List.forall₂_cons_right_iff.1 h
  have hmem : t ∈ nonzero (terms p) := ht ▸ List.mem_cons_self
  have hlt := (mem_terms (mem_nonzero.1 hmem).1).2
  rw [hn] at hlt
  exact absurd hsame.power_eq hlt.ne

theorem sameTerms_iff {p q : List Binary64} (h : p.length = q.length) :
    List.Forall₂ SameTerm (nonzero (terms p)) (nonzero (terms q)) ↔
      List.Forall₂ Binary64.Agrees p q := by
  -- A zero on one side alone leaves a term on the other whose power no later term reaches.
  induction p generalizing q with
  | nil =>
    obtain rfl := List.eq_nil_of_length_eq_zero h.symm
    exact ⟨fun _ => .nil, fun _ => .nil⟩
  | cons a p ih =>
    cases q with
    | nil => cases h
    | cons b q =>
      have hlen : p.length = q.length := Nat.succ.inj h
      have htail := ih hlen
      rw [nonzero_terms_cons, nonzero_terms_cons, List.forall₂_cons]
      cases ha : a.isZero with
      | true =>
        cases hb : b.isZero with
        | true => simpa [Binary64.Agrees.of_isZero ha hb] using htail
        | false =>
          refine iff_of_false (not_sameTerms_cons hlen) fun hab => ?_
          rw [hab.1.isZero, hb] at ha
          cases ha
      | false =>
        cases hb : b.isZero with
        | true =>
          refine iff_of_false (fun hts => ?_) fun hab => ?_
          · exact not_sameTerms_cons hlen.symm (hts.imp (fun _ _ => SameTerm.symm)).flip
          · rw [hab.1.isZero, hb] at ha
            cases ha
        | false =>
          rw [if_neg (by simp), if_neg (by simp), List.forall₂_cons, sameTerm_iff hlen, htail]

theorem nonzero_terms_zeros (n : Nat) (cs : List Binary64) :
    nonzero (terms (List.replicate n 0 ++ cs)) = nonzero (terms cs) := by
  have hzero : (0 : Binary64).isZero = true := by rw [Binary64.zero_eq]; rfl
  induction n with
  | zero => rfl
  | succ n ih => rw [List.replicate_succ, List.cons_append, nonzero_terms_cons, if_pos hzero, ih]

theorem text_leftpad (n : Nat) (cs : List Binary64) : text (cs.leftpad n 0) = text cs :=
  congrArg joined (nonzero_terms_zeros _ cs)

section

variable {p q : List Binary64}

theorem isTerm_of_mem (hlen : p.length ≤ 3) (hfin : ∀ x ∈ p, x.isFinite = true)
    {t : Binary64 × Nat} (ht : t ∈ terms p) : IsTerm t :=
  ⟨hfin _ (mem_terms ht).1, Nat.le_of_lt_succ ((mem_terms ht).2.trans_le hlen)⟩

variable (h : p.length = q.length) (hlen : p.length ≤ 3) (hp : ∀ x ∈ p, x.isFinite = true)
  (hq : ∀ x ∈ q, x.isFinite = true)
include h hlen hp hq

theorem text_eq_iff : text p = text q ↔ List.Forall₂ Binary64.Agrees p q := by
  rw [← sameTerms_iff h]
  exact joined_eq_iff (fun _ ht => isTerm_of_mem hlen hp (mem_nonzero.1 ht).1)
    (fun _ ht => isTerm_of_mem (h ▸ hlen) hq (mem_nonzero.1 ht).1)
    (fun _ ht => (mem_nonzero.1 ht).2) fun _ ht => (mem_nonzero.1 ht).2

/-- The leading term is there in any case, and the others are as in a text of their own. -/
theorem textAsTyped_eq_iff : textAsTyped p = textAsTyped q ↔ List.Forall₂ Binary64.Agrees p q := by
  cases p with
  | nil =>
    obtain rfl := List.eq_nil_of_length_eq_zero h.symm
    exact iff_of_true rfl .nil
  | cons a p =>
    cases q with
    | nil => cases h
    | cons b q =>
      have hpq : p.length = q.length := Nat.succ.inj h
      have hmem : ∀ {c : Binary64} {cs : List Binary64} {t : Binary64 × Nat},
          t ∈ (c, cs.length) :: nonzero (terms cs) → t ∈ terms (c :: cs) := by
        intro c cs t ht
        rcases List.mem_cons.1 ht with rfl | ht
        · exact List.mem_cons_self
        · exact List.mem_cons_of_mem _ (mem_nonzero.1 ht).1
      have hjoined := joined_cons_eq_iff (fun _ ht => isTerm_of_mem hlen hp (hmem ht))
        fun _ ht => isTerm_of_mem (h ▸ hlen) hq (hmem ht)
      rw [List.forall₂_cons, sameTerm_iff hpq, sameTerms_iff hpq, ← List.forall₂_cons] at hjoined
      exact hjoined

end

/-- The same numbers in the same order, `-0` being `0`. -/
def SameNumbers (p q : List Binary64) : Prop :=
  List.Forall₂ (fun x y => x.sameNumber y = true) p q

theorem sameNumbers_iff {p q : List Binary64} (hp : ∀ x ∈ p, x.isFinite = true) :
    SameNumbers p q ↔ List.Forall₂ Binary64.Agrees p q := by
  unfold SameNumbers
  induction p generalizing q with
  | nil => cases q <;> simp
  | cons x p ih =>
    obtain ⟨hx, hp⟩ := List.forall_mem_cons.1 hp
    cases q with
    | nil => simp
    | cons y q =>
      rw [List.forall₂_cons, List.forall₂_cons, ih hp, Binary64.sameNumber_iff,
        and_iff_left (Binary64.ne_nan_of_isFinite hx)]

theorem isFinite_leftpad {p : List Binary64} (hp : ∀ x ∈ p, x.isFinite = true) (n : Nat) :
    ∀ x ∈ p.leftpad n 0, x.isFinite = true := by
  intro x hx
  rcases List.mem_append.1 hx with hx | hx
  · rw [List.eq_of_mem_replicate hx]
    exact isFinite_zero
  · exact hp x hx

/-- Up to the square, the text of a polynomial tells its coefficients: two texts are equal exactly
if the coefficients are equal as numbers, with zeros set in front of the shorter list. With the
leading term always written, the same holds of two lists of one length, entry by entry. -/
theorem polynomial_text_tells_coefficients {p q : List Binary64} (hlenp : p.length ≤ 3)
    (hlenq : q.length ≤ 3) (hp : ∀ x ∈ p, x.isFinite = true) (hq : ∀ x ∈ q, x.isFinite = true) :
    (text p = text q ↔ SameNumbers (p.leftpad q.length 0) (q.leftpad p.length 0)) ∧
    (p.length = q.length → (textAsTyped p = textAsTyped q ↔ SameNumbers p q)) := by
  constructor
  · have hlen : (p.leftpad q.length 0).length = (q.leftpad p.length 0).length := by
      rw [List.length_leftpad, List.length_leftpad, max_comm]
    have hpad : (p.leftpad q.length 0).length ≤ 3 := by
      rw [List.length_leftpad]
      exact max_le hlenq hlenp
    have hp' := isFinite_leftpad hp q.length
    have hq' := isFinite_leftpad hq p.length
    rw [← text_leftpad q.length p, ← text_leftpad p.length q, sameNumbers_iff hp']
    exact text_eq_iff hlen hpad hp' hq'
  · intro h
    rw [sameNumbers_iff hp]
    exact textAsTyped_eq_iff h hlenp hp hq

theorem texts_of_x_minus_four :
    text [1, -4] = text [0, 1, -4] ∧ text [1, -4] ≠ text [1, -4, 0] ∧
      textAsTyped [0, 1, -4] = textAsTyped [-0, 1, -4] := by
  have hfin : ∀ x ∈ [-0, 0, 1, (-4 : Binary64)], x.isFinite = true := by decide +kernel
  have hsub : ∀ {p : List Binary64}, p ⊆ [-0, 0, 1, -4] → ∀ x ∈ p, x.isFinite = true :=
    fun h x hx => hfin x (h hx)
  refine ⟨?_, ?_, ?_⟩
  · refine (polynomial_text_tells_coefficients (by decide) (by decide) (hsub (by simp))
      (hsub (by simp))).1.2 ?_
    exact .cons (by decide +kernel) (.cons (by decide +kernel) (.cons (by decide +kernel) .nil))
  · intro h
    have hsame := (polynomial_text_tells_coefficients (p := [1, -4]) (q := [1, -4, 0]) (by decide)
      (by decide) (hsub (by simp)) (hsub (by simp))).1.1 h
    exact absurd (List.forall₂_cons.1 hsame).1 (by decide +kernel)
  · have hiff := (polynomial_text_tells_coefficients (p := [0, 1, -4]) (q := [-0, 1, -4])
      (by decide) (by decide) (hsub (by simp)) (hsub (by simp))).2 rfl
    refine hiff.2 ?_
    exact .cons (by decide +kernel) (.cons (by decide +kernel) (.cons (by decide +kernel) .nil))

end Polynomial

end SchoolAlgebra
