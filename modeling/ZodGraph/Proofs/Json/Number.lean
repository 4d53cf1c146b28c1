import ZodGraph.Proofs.Json.Lexeme

/-!
Numbers in JSON text. A number is a run of digits and what may follow it: a fraction, an exponent
or both. Each part is read the same whatever ends it, and passed over to the same place.
-/

namespace ZodGraph.Json

variable {cs r t : List Char}

def Digits (ds : List Char) : Prop := ∀ c ∈ ds, isDigit c

lemma digits_nil : Digits [] := by simp [Digits]

lemma exists_digits (cs : List Char) : ∃ ds r, cs = ds ++ r ∧ Digits ds ∧ NoDigit r := by
  refine ⟨cs.takeWhile isDigit, cs.dropWhile isDigit, (List.takeWhile_append_dropWhile ..).symm,
    fun _ hc => List.mem_takeWhile_imp hc, ?_⟩
  intro c hc
  have hnot := List.head?_dropWhile_not isDigit cs
  rw [Option.mem_def.1 hc] at hnot
  simpa using hnot

lemma NoDigit.of_ends (h : NoDigit (t ++ r)) {r' : List Char} (hr : Ends r') :
    NoDigit (t ++ r') := by
  rcases t with _ | ⟨c, t⟩
  · exact hr.noDigit
  · exact h

lemma dropDigits_append {ds : List Char} (h : Digits ds) (hr : NoDigit r) :
    dropDigits (ds ++ r) = (ds.length, r) := by
  induction ds with
  | nil =>
    rcases r with _ | ⟨c, r⟩
    · rfl
    · have hc := hr c rfl
      simp [dropDigits, hc]
  | cons c ds ih =>
    have hc : isDigit c = true := h c (by simp)
    simpa [dropDigits, hc] using ih fun d hd => h d (by simp [hd])

/-- The digits that fit are taken whatever follows; the others are still in front of it. -/
lemma takeDigits_append (limit n : Nat) {ds : List Char} (h : Digits ds) :
    ∃ m k rest, Digits rest ∧ k + rest.length = ds.length ∧
      ∀ r, NoDigit r → takeDigits limit n (ds ++ r) = (m, k, rest ++ r) := by
  induction ds generalizing n with
  | nil =>
    refine ⟨n, 0, [], h, rfl, fun r hr => ?_⟩
    rcases r with _ | ⟨c, r⟩
    · rfl
    · have hc : digit? c = none := by simpa [isDigit] using hr c rfl
      simp [takeDigits, hc]
  | cons c ds ih =>
    obtain ⟨d, hd⟩ := Option.isSome_iff_exists.1 (h c (by simp))
    by_cases hlimit : limit < n * 10 + d
    · exact ⟨n, 0, c :: ds, h, by simp, fun r hr => by simp [takeDigits, hd, hlimit]⟩
    · obtain ⟨m, k, rest, hrest, hlen, htake⟩ :=
        ih (n * 10 + d) fun e he => h e (by simp [he])
      refine ⟨m, k + 1, rest, hrest, by simp; omega, fun r hr => ?_⟩
      simp [takeDigits, hd, hlimit, htake r hr]

/-- Passes over digits, at least one. -/
def skipDigits (cs : List Char) : Except TextError (List Char) :=
  match dropDigits cs with
  | (0, _) => .error .invalidNumber
  | (_, r) => .ok r

/-- The digits of an exponent, its sign read. -/
def exponentDigits (negative down : Bool) (n : Nat) (e : Int) (cs : List Char) :
    Except TextError (Double × List Char) :=
  match cs with
  | [] => .error .eofValue
  | c :: _ =>
    if isDigit c then
      let (k, _, r) := takeDigits maxExponent 0 cs
      let (extra, r) := dropDigits r
      if 0 < extra then
        if n ≠ 0 ∧ ¬ down then .error .numberOutOfRange else .ok (signed negative .zero, r)
      else (scaled negative n (if down then e - k else e + k)).map fun x => (x, r)
    else .error .invalidNumber

/-- No sign comes next. -/
def NoSign (cs : List Char) : Prop := ∀ c ∈ cs.head?, c ≠ '+' ∧ c ≠ '-'

lemma exponentPart_unsigned (negative : Bool) (n : Nat) (e : Int) (h : NoSign cs) :
    exponentPart negative n e cs = exponentDigits negative false n e cs := by
  rcases cs with _ | ⟨c, cs⟩
  · rfl
  · obtain ⟨hp, hm⟩ := h c rfl
    unfold exponentPart
    split
    next down cs' heq =>
      split at heq
      · simp_all
      · simp_all
      · obtain ⟨rfl, rfl⟩ := Prod.mk.inj heq
        rfl

lemma skipExponent_unsigned (h : NoSign cs) : skipExponent cs = skipDigits cs := by
  rcases cs with _ | ⟨c, cs⟩
  · rfl
  · obtain ⟨hp, hm⟩ := h c rfl
    unfold skipExponent skipDigits
    split
    · simp_all
    · simp_all
    · rfl

lemma skipDigits_append {ds : List Char} (h : Digits ds) (hne : ds ≠ []) (hr : NoDigit r) :
    skipDigits (ds ++ r) = .ok r := by
  obtain ⟨k, hk⟩ := Nat.exists_eq_succ_of_ne_zero (List.length_pos_iff.2 hne).ne'
  rw [skipDigits, dropDigits_append h hr, hk]
  rfl

lemma skipDigits_local (h : skipDigits cs = .ok r) :
    ∃ ds, cs = ds ++ r ∧ Digits ds ∧ ds ≠ [] ∧ NoDigit r := by
  obtain ⟨ds, r', rfl, hds, hr⟩ := exists_digits cs
  rcases ds with _ | ⟨c, ds⟩
  · rw [skipDigits, dropDigits_append hds hr] at h
    simp at h
  · rw [skipDigits_append hds (by simp) hr] at h
    obtain rfl : r' = r := by simpa using h
    exact ⟨c :: ds, rfl, hds, by simp, hr⟩

lemma map_pair_eq_ok {α : Type} {y : Except TextError α} {x : α} {r' : List Char} :
    (y.map fun x => (x, r')) = .ok (x, r) ↔ y = .ok x ∧ r' = r := by
  cases y <;> simp [Except.map]

lemma exponentDigits_local {negative down : Bool} {n : Nat} {e : Int} {x : Double}
    (h : exponentDigits negative down n e cs = .ok (x, r)) :
    ∃ ds, cs = ds ++ r ∧ Digits ds ∧ ds ≠ [] ∧
      ∀ r', NoDigit r' → exponentDigits negative down n e (ds ++ r') = .ok (x, r') := by
  obtain ⟨ds, r₁, rfl, hds, hr⟩ := exists_digits cs
  obtain ⟨k, used, rest, hrest, -, htake⟩ := takeDigits_append maxExponent 0 hds
  rcases ds with _ | ⟨c, ds⟩
  · rcases r₁ with _ | ⟨c, r₁⟩
    · simp [exponentDigits] at h
    · have hc := hr c rfl
      simp [exponentDigits, hc] at h
  · have hc : isDigit c = true := hds c (by simp)
    -- what is read depends on the digits only
    obtain ⟨y, hy⟩ : ∃ y : Except TextError Double, ∀ r', NoDigit r' →
        exponentDigits negative down n e (c :: ds ++ r') = y.map fun x => (x, r') := by
      refine ⟨if 0 < rest.length then
          if n ≠ 0 ∧ ¬ down then .error .numberOutOfRange else .ok (signed negative .zero)
        else scaled negative n (if down then e - k else e + k), fun r' hr' => ?_⟩
      have ht := htake r' hr'
      rw [List.cons_append] at ht ⊢
      simp only [exponentDigits, hc, ht, dropDigits_append hrest hr', if_true]
      split_ifs <;> rfl
    rw [hy r₁ hr] at h
    obtain ⟨rfl, rfl⟩ := map_pair_eq_ok.1 h
    exact ⟨c :: ds, rfl, hds, by simp, hy⟩

lemma NoSign.of_digits {ds : List Char} (h : Digits ds) (hne : ds ≠ []) : NoSign (ds ++ r) := by
  obtain ⟨c, ds, rfl⟩ := List.exists_cons_of_ne_nil hne
  intro d hd
  obtain rfl : c = d := by simpa using hd
  have hc := h c (by simp)
  constructor <;> (rintro rfl; exact absurd hc (by decide))

lemma exists_sign (h : ¬ NoSign cs) : ∃ cs', cs = '+' :: cs' ∨ cs = '-' :: cs' := by
  rcases cs with _ | ⟨c, cs⟩
  · simp [NoSign] at h
  · refine ⟨cs, ?_⟩
    simp only [NoSign, List.head?_cons, Option.mem_some_iff] at h
    grind

theorem exponentPart_local {negative : Bool} {n : Nat} {e : Int} {x : Double}
    (h : exponentPart negative n e cs = .ok (x, r)) :
    ∃ t, cs = t ++ r ∧ PieceText (exponentPart negative n e) skipExponent t x := by
  by_cases hsign : NoSign cs
  · rw [exponentPart_unsigned _ _ _ hsign] at h
    obtain ⟨ds, rfl, hds, hne, hread⟩ := exponentDigits_local h
    refine ⟨ds, rfl, fun r hr => ?_⟩
    have hfree : NoSign (ds ++ r) := .of_digits hds hne
    rw [exponentPart_unsigned _ _ _ hfree, skipExponent_unsigned hfree]
    exact ⟨hread r hr.noDigit, skipDigits_append hds hne hr.noDigit⟩
  · obtain ⟨cs, rfl | rfl⟩ := exists_sign hsign
    · obtain ⟨ds, rfl, hds, hne, hread⟩ := exponentDigits_local h
      exact ⟨'+' :: ds, rfl, fun r hr =>
        ⟨hread r hr.noDigit, skipDigits_append hds hne hr.noDigit⟩⟩
    · obtain ⟨ds, rfl, hds, hne, hread⟩ := exponentDigits_local h
      exact ⟨'-' :: ds, rfl, fun r hr =>
        ⟨hread r hr.noDigit, skipDigits_append hds hne hr.noDigit⟩⟩

theorem skipExponent_local (h : skipExponent cs = .ok r) :
    ∃ t, cs = t ++ r ∧ ∀ r', Ends r' → skipExponent (t ++ r') = .ok r' := by
  by_cases hsign : NoSign cs
  · rw [skipExponent_unsigned hsign] at h
    obtain ⟨ds, rfl, hds, hne, -⟩ := skipDigits_local h
    refine ⟨ds, rfl, fun r hr => ?_⟩
    rw [skipExponent_unsigned (.of_digits hds hne)]
    exact skipDigits_append hds hne hr.noDigit
  · obtain ⟨cs, rfl | rfl⟩ := exists_sign hsign
    · obtain ⟨ds, rfl, hds, hne, -⟩ := skipDigits_local h
      exact ⟨'+' :: ds, rfl, fun r hr => skipDigits_append hds hne hr.noDigit⟩
    · obtain ⟨ds, rfl, hds, hne, -⟩ := skipDigits_local h
      exact ⟨'-' :: ds, rfl, fun r hr => skipDigits_append hds hne hr.noDigit⟩

/-- Passes over what may follow the digits of a fraction. -/
def skipAfterDigits (cs : List Char) : Except TextError (List Char) :=
  match cs with
  | 'e' :: r | 'E' :: r => skipExponent r
  | r => .ok r

/-- No exponent comes next. -/
def NoExponent (cs : List Char) : Prop := ∀ c ∈ cs.head?, c ≠ 'e' ∧ c ≠ 'E'

lemma Ends.noExponent (h : Ends r) : NoExponent r := by
  intro c hc
  simpa using h.of_all (p := fun d => d != 'e' && d != 'E') (by decide) c hc

lemma exists_exponent (h : ¬ NoExponent cs) : ∃ cs', cs = 'e' :: cs' ∨ cs = 'E' :: cs' := by
  rcases cs with _ | ⟨c, cs⟩
  · simp [NoExponent] at h
  · refine ⟨cs, ?_⟩
    simp only [NoExponent, List.head?_cons, Option.mem_some_iff] at h
    grind

lemma afterDigits_plain (negative : Bool) (n : Nat) (e : Int) (h : NoExponent cs) :
    afterDigits negative n e cs = (scaled negative n e).map fun x => (x, cs) := by
  unfold afterDigits
  split
  · exact absurd rfl (h 'e' rfl).1
  · exact absurd rfl (h 'E' rfl).2
  · rfl

lemma skipAfterDigits_plain (h : NoExponent cs) : skipAfterDigits cs = .ok cs := by
  unfold skipAfterDigits
  split
  · exact absurd rfl (h 'e' rfl).1
  · exact absurd rfl (h 'E' rfl).2
  · rfl

lemma afterDigits_local {negative : Bool} {n : Nat} {e : Int} {x : Double}
    (h : afterDigits negative n e cs = .ok (x, r)) :
    ∃ t, cs = t ++ r ∧ PieceText (afterDigits negative n e) skipAfterDigits t x := by
  by_cases hexp : NoExponent cs
  · rw [afterDigits_plain _ _ _ hexp] at h
    obtain ⟨hx, rfl⟩ := map_pair_eq_ok.1 h
    refine ⟨[], rfl, fun r hr => ?_⟩
    rw [List.nil_append, afterDigits_plain _ _ _ hr.noExponent, hx]
    exact ⟨rfl, skipAfterDigits_plain hr.noExponent⟩
  · obtain ⟨cs, rfl | rfl⟩ := exists_exponent hexp
    · obtain ⟨t, rfl, ht⟩ := exponentPart_local h
      exact ⟨'e' :: t, rfl, ht⟩
    · obtain ⟨t, rfl, ht⟩ := exponentPart_local h
      exact ⟨'E' :: t, rfl, ht⟩

lemma skipAfterDigits_local (h : skipAfterDigits cs = .ok r) :
    ∃ t, cs = t ++ r ∧ ∀ r', Ends r' → skipAfterDigits (t ++ r') = .ok r' := by
  by_cases hexp : NoExponent cs
  · rw [skipAfterDigits_plain hexp] at h
    obtain rfl : cs = r := by simpa using h
    exact ⟨[], rfl, fun r hr => skipAfterDigits_plain hr.noExponent⟩
  · obtain ⟨cs, rfl | rfl⟩ := exists_exponent hexp
    · obtain ⟨t, rfl, ht⟩ := skipExponent_local h
      exact ⟨'e' :: t, rfl, ht⟩
    · obtain ⟨t, rfl, ht⟩ := skipExponent_local h
      exact ⟨'E' :: t, rfl, ht⟩

lemma fractionPart_digits (negative : Bool) (n : Nat) (e : Int) {ds : List Char} (h : Digits ds)
    (hne : ds ≠ []) : ∃ m e', ∀ r, NoDigit r →
      fractionPart negative n e (ds ++ r) = afterDigits negative m e' r := by
  obtain ⟨m, used, rest, hrest, hlen, htake⟩ := takeDigits_append maxSignificand n h
  refine ⟨m, e - used, fun r hr => ?_⟩
  have hsome : ¬ (used = 0 ∧ rest.length = 0) := by
    have := List.length_pos_iff.2 hne
    omega
  simp only [fractionPart, htake r hr, dropDigits_append hrest hr, hsome, if_false]

lemma fractionPart_noDigit (negative : Bool) (n : Nat) (e : Int) (h : NoDigit cs) {x : Double} :
    fractionPart negative n e cs ≠ .ok (x, r) := by
  have htake : takeDigits maxSignificand n cs = (n, 0, cs) := by
    rcases cs with _ | ⟨c, cs⟩
    · rfl
    · have hc : digit? c = none := by simpa [isDigit] using h c rfl
      simp [takeDigits, hc]
  have hdrop : dropDigits cs = (0, cs) := dropDigits_append digits_nil h
  unfold fractionPart
  simp only [htake, hdrop]
  rcases cs with _ | ⟨c, cs⟩ <;> simp

lemma skipFraction_digits {ds : List Char} (h : Digits ds) (hne : ds ≠ []) (hr : NoDigit r) :
    skipFraction (ds ++ r) = skipAfterDigits r := by
  obtain ⟨k, hk⟩ := Nat.exists_eq_succ_of_ne_zero (List.length_pos_iff.2 hne).ne'
  unfold skipFraction skipAfterDigits
  rw [dropDigits_append h hr, hk]
  rcases r with _ | ⟨c, r⟩
  · rfl
  · by_cases he : c = 'e'
    · subst he; rfl
    · by_cases hE : c = 'E'
      · subst hE; rfl
      · simp [he, hE]

theorem fractionPart_local {negative : Bool} {n : Nat} {e : Int} {x : Double}
    (h : fractionPart negative n e cs = .ok (x, r)) :
    ∃ t, cs = t ++ r ∧ PieceText (fractionPart negative n e) skipFraction t x := by
  obtain ⟨ds, r₁, rfl, hds, hr⟩ := exists_digits cs
  by_cases hne : ds = []
  · subst hne
    exact absurd h (fractionPart_noDigit _ _ _ hr)
  · obtain ⟨m, e', hread⟩ := fractionPart_digits negative n e hds hne
    rw [hread r₁ hr] at h
    obtain ⟨t, rfl, ht⟩ := afterDigits_local h
    refine ⟨ds ++ t, by simp, fun r' hr' => ?_⟩
    have hfree := hr.of_ends hr'
    rw [List.append_assoc, hread _ hfree, skipFraction_digits hds hne hfree]
    exact ht r' hr'

theorem skipFraction_local (h : skipFraction cs = .ok r) :
    ∃ t, cs = t ++ r ∧ ∀ r', Ends r' → skipFraction (t ++ r') = .ok r' := by
  obtain ⟨ds, r₁, rfl, hds, hr⟩ := exists_digits cs
  by_cases hne : ds = []
  · subst hne
    rw [skipFraction, dropDigits_append hds hr] at h
    simp at h
  · rw [skipFraction_digits hds hne hr] at h
    obtain ⟨t, rfl, ht⟩ := skipAfterDigits_local h
    refine ⟨ds ++ t, by simp, fun r' hr' => ?_⟩
    rw [List.append_assoc, skipFraction_digits hds hne (hr.of_ends hr')]
    exact ht r' hr'

/-- What may follow the whole part of a number, with the digits that did not fit it. -/
def afterWhole (negative : Bool) (n extra : Nat) (cs : List Char) :
    Except TextError (Json × List Char) :=
  match cs with
  | '.' :: r => (fractionPart negative n extra r).map fun (x, r) => (num x, r)
  | 'e' :: r | 'E' :: r => (exponentPart negative n extra r).map fun (x, r) => (num x, r)
  | r =>
    if extra = 0 then .ok (wholeNumber negative n, r)
    else (scaled negative n extra).map fun x => (num x, r)

/-- Passes over what may follow the whole part of a number. -/
def skipAfterWhole (cs : List Char) : Except TextError (List Char) :=
  match cs with
  | '.' :: r => skipFraction r
  | 'e' :: r | 'E' :: r => skipExponent r
  | r => .ok r

/-- Neither a fraction nor an exponent comes next. -/
def Plain (cs : List Char) : Prop := NoExponent cs ∧ ∀ c ∈ cs.head?, c ≠ '.'

lemma Ends.plain (h : Ends r) : Plain r := by
  refine ⟨h.noExponent, fun c hc => ?_⟩
  simpa using h.of_all (p := fun d => d != '.') (by decide) c hc

lemma exists_of_not_plain (h : ¬ Plain cs) :
    ∃ cs', cs = '.' :: cs' ∨ cs = 'e' :: cs' ∨ cs = 'E' :: cs' := by
  rcases cs with _ | ⟨c, cs⟩
  · simp [Plain, NoExponent] at h
  · refine ⟨cs, ?_⟩
    simp only [Plain, NoExponent, List.head?_cons, Option.mem_some_iff] at h
    grind

lemma afterWhole_plain (negative : Bool) (n extra : Nat) (h : Plain cs) :
    afterWhole negative n extra cs =
      (if extra = 0 then .ok (wholeNumber negative n)
        else (scaled negative n extra).map num).map fun j => (j, cs) := by
  unfold afterWhole
  split
  · exact absurd rfl (h.2 '.' rfl)
  · exact absurd rfl (h.1 'e' rfl).1
  · exact absurd rfl (h.1 'E' rfl).2
  · split_ifs
    · rfl
    · cases scaled negative n extra <;> rfl

lemma skipAfterWhole_plain (h : Plain cs) : skipAfterWhole cs = .ok cs := by
  unfold skipAfterWhole
  split
  · exact absurd rfl (h.2 '.' rfl)
  · exact absurd rfl (h.1 'e' rfl).1
  · exact absurd rfl (h.1 'E' rfl).2
  · rfl

lemma map_num_eq_ok {y : Except TextError (Double × List Char)} {j : Json} :
    (y.map fun (x, r) => (num x, r)) = .ok (j, r) ↔ ∃ x, y = .ok (x, r) ∧ j = num x := by
  rcases y with e | ⟨x, r'⟩
  · simp [Except.map]
  · simp [Except.map]
    tauto

lemma afterWhole_local {negative : Bool} {n extra : Nat} {j : Json}
    (h : afterWhole negative n extra cs = .ok (j, r)) :
    ∃ t, cs = t ++ r ∧ PieceText (afterWhole negative n extra) skipAfterWhole t j := by
  by_cases hplain : Plain cs
  · rw [afterWhole_plain _ _ _ hplain] at h
    obtain ⟨hj, rfl⟩ := map_pair_eq_ok.1 h
    refine ⟨[], rfl, fun r hr => ?_⟩
    rw [List.nil_append, afterWhole_plain _ _ _ hr.plain, hj]
    exact ⟨rfl, skipAfterWhole_plain hr.plain⟩
  · obtain ⟨cs, rfl | rfl | rfl⟩ := exists_of_not_plain hplain
    · obtain ⟨x, hx, rfl⟩ := map_num_eq_ok.1 h
      obtain ⟨t, rfl, ht⟩ := fractionPart_local hx
      exact ⟨'.' :: t, rfl, fun r hr => ⟨map_num_eq_ok.2 ⟨x, (ht r hr).1, rfl⟩, (ht r hr).2⟩⟩
    · obtain ⟨x, hx, rfl⟩ := map_num_eq_ok.1 h
      obtain ⟨t, rfl, ht⟩ := exponentPart_local hx
      exact ⟨'e' :: t, rfl, fun r hr => ⟨map_num_eq_ok.2 ⟨x, (ht r hr).1, rfl⟩, (ht r hr).2⟩⟩
    · obtain ⟨x, hx, rfl⟩ := map_num_eq_ok.1 h
      obtain ⟨t, rfl, ht⟩ := exponentPart_local hx
      exact ⟨'E' :: t, rfl, fun r hr => ⟨map_num_eq_ok.2 ⟨x, (ht r hr).1, rfl⟩, (ht r hr).2⟩⟩

lemma skipAfterWhole_local (h : skipAfterWhole cs = .ok r) :
    ∃ t, cs = t ++ r ∧ ∀ r', Ends r' → skipAfterWhole (t ++ r') = .ok r' := by
  by_cases hplain : Plain cs
  · rw [skipAfterWhole_plain hplain] at h
    obtain rfl : cs = r := by simpa using h
    exact ⟨[], rfl, fun r hr => skipAfterWhole_plain hr.plain⟩
  · obtain ⟨cs, rfl | rfl | rfl⟩ := exists_of_not_plain hplain
    · obtain ⟨t, rfl, ht⟩ := skipFraction_local h
      exact ⟨'.' :: t, rfl, ht⟩
    · obtain ⟨t, rfl, ht⟩ := skipExponent_local h
      exact ⟨'e' :: t, rfl, ht⟩
    · obtain ⟨t, rfl, ht⟩ := skipExponent_local h
      exact ⟨'E' :: t, rfl, ht⟩

/-- The whole part of a number: digits, and a zero in front only alone. -/
structure Whole (ds : List Char) : Prop where
  digits : Digits ds
  nonempty : ds ≠ []
  zero : ds.head? = some '0' → ds = ['0']

lemma unsignedNumber_digits (negative : Bool) {ds : List Char} (h : Digits ds) :
    ∃ n extra, ∀ r, NoDigit r →
      unsignedNumber negative (ds ++ r) = afterWhole negative n extra r := by
  obtain ⟨m, used, rest, hrest, -, htake⟩ := takeDigits_append maxSignificand 0 h
  refine ⟨m, rest.length, fun r hr => ?_⟩
  simp only [unsignedNumber, htake r hr, dropDigits_append hrest hr]
  rfl

lemma number_whole (negative : Bool) {ds : List Char} (h : Whole ds) (hr : NoDigit r) :
    number negative (ds ++ r) = unsignedNumber negative (ds ++ r) := by
  obtain ⟨c, ds, rfl⟩ := List.exists_cons_of_ne_nil h.nonempty
  have hc : isDigit c = true := h.digits c (by simp)
  by_cases hzero : c = '0'
  · subst hzero
    obtain rfl : ds = [] := by simpa using h.zero rfl
    rcases r with _ | ⟨d, r⟩
    · rfl
    · have hd := hr d rfl
      simp [number, hd]
  · rw [List.cons_append, number, if_pos hc]
    exact fun _ _ he _ => hzero he

lemma skipNumber_whole {ds : List Char} (h : Whole ds) (hr : NoDigit r) :
    skipNumber (ds ++ r) = skipAfterWhole r := by
  obtain ⟨c, ds, rfl⟩ := List.exists_cons_of_ne_nil h.nonempty
  by_cases hzero : c = '0'
  · subst hzero
    obtain rfl : ds = [] := by simpa using h.zero rfl
    rcases r with _ | ⟨d, r⟩
    · rfl
    · have hd := hr d rfl
      simp only [List.cons_append, List.nil_append, skipNumber, hd, Bool.false_eq_true, if_false]
      rfl
  · have hdrop := dropDigits_append h.digits hr
    rw [List.cons_append] at hdrop ⊢
    rw [skipNumber, hdrop]
    · rfl
    · exact fun _ _ he => hzero (List.cons.inj he).1

/-- A text that does not start with the whole part of a number is refused. -/
lemma whole_or_refused (cs : List Char) :
    (∃ ds r, cs = ds ++ r ∧ Whole ds ∧ NoDigit r) ∨
      (∀ negative j r, number negative cs ≠ .ok (j, r)) ∧ ∀ r, skipNumber cs ≠ .ok r := by
  obtain ⟨ds, r, rfl, hds, hr⟩ := exists_digits cs
  rcases ds with _ | ⟨c, ds⟩
  · right
    rcases r with _ | ⟨c, r⟩
    · exact ⟨by simp [number], by simp [skipNumber, dropDigits]⟩
    · have hc : isDigit c = false := hr c rfl
      have hzero : c ≠ '0' := by
        rintro rfl
        exact absurd hc (by decide)
      refine ⟨fun negative j r' => ?_, fun r' => ?_⟩
      · rw [List.nil_append, number]
        · simp [hc]
        · exact fun _ _ he _ => hzero he
      · rw [skipNumber]
        · rw [dropDigits_append digits_nil hr]
          simp
        · exact fun _ _ he => hzero (List.cons.inj he).1
  · by_cases hzero : c = '0' ∧ ds ≠ []
    · right
      obtain ⟨rfl, hne⟩ := hzero
      obtain ⟨d, ds, rfl⟩ := List.exists_cons_of_ne_nil hne
      have hd : isDigit d = true := hds d (by simp)
      exact ⟨by simp [number, hd], by simp [skipNumber, hd]⟩
    · left
      refine ⟨c :: ds, r, rfl, ⟨hds, by simp, fun hc => ?_⟩, hr⟩
      obtain rfl : c = '0' := by simpa using hc
      simpa using hzero

theorem number_local {negative : Bool} {j : Json} (h : number negative cs = .ok (j, r)) :
    ∃ t, cs = t ++ r ∧ PieceText (number negative) skipNumber t j := by
  obtain ⟨ds, r₁, rfl, hds, hr⟩ :=
    (whole_or_refused cs).resolve_right fun hno => hno.1 _ _ _ h
  obtain ⟨n, extra, hread⟩ := unsignedNumber_digits negative hds.digits
  rw [number_whole negative hds hr, hread r₁ hr] at h
  obtain ⟨t, rfl, ht⟩ := afterWhole_local h
  refine ⟨ds ++ t, by simp, fun r' hr' => ?_⟩
  have hfree := hr.of_ends hr'
  rw [List.append_assoc, number_whole negative hds hfree, hread _ hfree,
    skipNumber_whole hds hfree]
  exact ht r' hr'

/-- A value that is neither a list nor an object. -/
def Atomic : Json → Prop
  | arr _ => False
  | obj _ => False
  | _ => True

lemma atomic_of_afterWhole {negative : Bool} {n extra : Nat} {j : Json}
    (h : afterWhole negative n extra cs = .ok (j, r)) : Atomic j := by
  by_cases hplain : Plain cs
  · rw [afterWhole_plain _ _ _ hplain] at h
    obtain ⟨hj, -⟩ := map_pair_eq_ok.1 h
    split at hj
    · obtain rfl := Except.ok.inj hj
      unfold wholeNumber
      split_ifs <;> trivial
    · rcases hx : scaled negative n extra with e | x
      · simp [hx, Except.map] at hj
      · obtain rfl : num x = j := by simpa [hx, Except.map] using hj
        trivial
  · obtain ⟨cs, rfl | rfl | rfl⟩ := exists_of_not_plain hplain
    all_goals
      obtain ⟨x, -, rfl⟩ := map_num_eq_ok.1 h
      trivial

lemma atomic_of_number {negative : Bool} {j : Json} (h : number negative cs = .ok (j, r)) :
    Atomic j := by
  obtain ⟨ds, r₁, rfl, hds, hr⟩ :=
    (whole_or_refused cs).resolve_right fun hno => hno.1 _ _ _ h
  obtain ⟨n, extra, hread⟩ := unsignedNumber_digits negative hds.digits
  rw [number_whole negative hds hr, hread r₁ hr] at h
  exact atomic_of_afterWhole h

theorem skipNumber_local (h : skipNumber cs = .ok r) :
    ∃ t, cs = t ++ r ∧ ∀ r', Ends r' → skipNumber (t ++ r') = .ok r' := by
  obtain ⟨ds, r₁, rfl, hds, hr⟩ :=
    (whole_or_refused cs).resolve_right fun hno => hno.2 _ h
  rw [skipNumber_whole hds hr] at h
  obtain ⟨t, rfl, ht⟩ := skipAfterWhole_local h
  refine ⟨ds ++ t, by simp, fun r' hr' => ?_⟩
  rw [List.append_assoc, skipNumber_whole hds (hr.of_ends hr')]
  exact ht r' hr'

end ZodGraph.Json
