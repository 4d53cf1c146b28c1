import ZodGraph.Proofs.Json.Number

/-!
The layout of JSON text: which texts are one value, and how a list or object is put together
from the texts of its parts. Passing over a value, the items of a list and the entries of an
object each accept exactly the texts laid out this way.
-/

namespace ZodGraph.Json

/-! ### Texts of one value -/

/-- A text that is passed over as one value wherever a value may end after it. -/
def ValueText (t : List Char) : Prop :=
  ∀ r, Ends r → ∀ bound : List Char, t.length ≤ bound.length → skip bound (t ++ r) = .ok r

/-- Passing over a value whose brackets are left to the given functions. -/
def skipWith (list object : List Char → Except TextError (List Char)) (cs : List Char) :
    Except TextError (List Char) :=
  match skipBlanks cs with
  | [] => .error .eofValue
  | 'n' :: r => word "ull".toList r
  | 't' :: r => word "rue".toList r
  | 'f' :: r => word "alse".toList r
  | '-' :: r => skipNumber r
  | '"' :: r => skipString r
  | '[' :: r => list r
  | '{' :: r => object r
  | c :: r => if isDigit c then skipNumber (c :: r) else .error .expectedValue

lemma skip_cons (c : Char) (bound cs : List Char) :
    skip (c :: bound) cs =
      skipWith (fun r => skipItems (skip bound) r true r)
        (fun r => skipEntries (skip bound) r true r) cs := rfl

/-- A text of one value that is no list or object. -/
def ScalarText (t : List Char) : Prop :=
  ∀ r, Ends r → ∀ list object, skipWith list object (t ++ r) = .ok r

section ScalarText

variable {b t cs r : List Char} {c : Char} {list object : List Char → Except TextError (List Char)}

lemma skipWith_blanks (h : Blanks b) :
    skipWith list object (b ++ cs) = skipWith list object cs := by
  rw [skipWith, skipBlanks_append h, skipWith]

lemma ScalarText.blanks (h : ScalarText t) (hb : Blanks b) : ScalarText (b ++ t) := by
  intro r hr list object
  rw [List.append_assoc, skipWith_blanks hb]
  exact h r hr list object

lemma scalarText_word {ws : List Char}
    (h : ∀ r list object, skipWith list object (c :: r) = word ws r) : ScalarText (c :: ws) := by
  intro r _ list object
  rw [List.cons_append, h]
  exact word_eq_ok_iff.2 rfl

lemma ScalarText.valueText (h : ScalarText t) : ValueText t := by
  intro r hr bound hb
  rcases bound with _ | ⟨c, bound⟩
  · obtain rfl : t = [] := List.eq_nil_of_length_eq_zero (by simpa using hb)
    have := h [] ends_nil (fun _ => .error .eofValue) fun _ => .error .eofValue
    simp [skipWith, skipBlanks] at this
  · rw [skip_cons]
    exact h r hr _ _

lemma not_mem_of_isDigit (h : isDigit c) :
    c ∉ ['n', 't', 'f', '-', '"', '[', '{', ' ', '\n', '\t', '\r'] := by
  intro hc
  have hall : ['n', 't', 'f', '-', '"', '[', '{', ' ', '\n', '\t', '\r'].all (!isDigit ·) := by
    decide
  simpa [h] using List.all_eq_true.1 hall c hc

lemma isBlank_of_isDigit (h : isDigit c) : isBlank c = false := by
  have := not_mem_of_isDigit h
  simp_all [isBlank]

lemma skipWith_digit (h : isDigit c) : skipWith list object (c :: r) = skipNumber (c :: r) := by
  have hne := not_mem_of_isDigit h
  rw [skipWith, skipBlanks_cons (isBlank_of_isDigit h)]
  split <;> simp_all

/-- What is passed over is a scalar, or a bracket was opened. -/
lemma skipWith_cases (h : skipWith list object cs = .ok r) :
    (∃ t, cs = t ++ r ∧ ScalarText t) ∨
      ∃ b s, Blanks b ∧ (cs = b ++ '[' :: s ∧ list s = .ok r ∨
        cs = b ++ '{' :: s ∧ object s = .ok r) := by
  obtain ⟨b, hb, hcs⟩ := exists_blanks cs
  -- a scalar's text starts with the blanks in front of it
  have scalar (t : List Char) (ht : skipBlanks cs = t ++ r) (hs : ScalarText t) :
      ∃ t, cs = t ++ r ∧ ScalarText t := by
    refine ⟨b ++ t, ?_, hs.blanks hb⟩
    rw [List.append_assoc, ← ht]
    exact hcs
  rw [skipWith] at h
  split at h
  · simp at h
  · next r' heq =>
    obtain rfl := word_eq_ok_iff.1 h
    exact .inl (scalar _ heq (scalarText_word fun _ _ _ => rfl))
  · next r' heq =>
    obtain rfl := word_eq_ok_iff.1 h
    exact .inl (scalar _ heq (scalarText_word fun _ _ _ => rfl))
  · next r' heq =>
    obtain rfl := word_eq_ok_iff.1 h
    exact .inl (scalar _ heq (scalarText_word fun _ _ _ => rfl))
  · next r' heq =>
    obtain ⟨t, rfl, ht⟩ := skipNumber_local h
    exact .inl (scalar ('-' :: t) heq fun r hr _ _ => ht r hr)
  · next r' heq =>
    obtain ⟨t, rfl, ht⟩ := skipString_local h
    exact .inl (scalar ('"' :: t) heq fun r _ _ _ => ht r)
  · next r' heq => exact .inr ⟨b, r', hb, .inl ⟨heq ▸ hcs, h⟩⟩
  · next r' heq => exact .inr ⟨b, r', hb, .inr ⟨heq ▸ hcs, h⟩⟩
  · next c r' hn ht hf hm hq hl ho heq =>
    split at h
    · next hd =>
      obtain ⟨t, hrt, htext⟩ := skipNumber_local h
      rcases t with _ | ⟨c', t⟩
      · have := htext [] ends_nil
        simp [skipNumber, dropDigits] at this
      · obtain ⟨rfl, rfl⟩ : c = c' ∧ r' = t ++ r := by simpa using hrt
        refine .inl (scalar (c :: t) heq fun r hr _ _ => ?_)
        exact (skipWith_digit hd).trans (htext r hr)
    · simp at h

end ScalarText

section ValueText

variable {b t t' cs r r' : List Char}

lemma skip_skipBlanks (bound cs : List Char) : skip bound (skipBlanks cs) = skip bound cs := by
  rcases bound with _ | ⟨c, bound⟩
  · rfl
  · simp only [skip_cons, skipWith, skipBlanks_skipBlanks]

lemma skip_blanks (h : Blanks b) (bound : List Char) : skip bound (b ++ cs) = skip bound cs := by
  rw [← skip_skipBlanks, skipBlanks_append h, skip_skipBlanks]

lemma ValueText.blanks (h : ValueText t) (hb : Blanks b) : ValueText (b ++ t) := by
  intro r hr bound hlen
  rw [List.append_assoc, skip_blanks hb]
  exact h r hr bound (by simp at hlen; omega)

/-- A value starts with no delimiter. -/
lemma ValueText.front (h : ValueText t) : ∃ c u, skipBlanks t = c :: u ∧ c ∉ delimiters := by
  have hskip := h [] ends_nil t le_rfl
  rw [List.append_nil] at hskip
  rcases t with _ | ⟨c, t⟩
  · simp [skip] at hskip
  · rw [skip_cons, skipWith] at hskip
    rcases hfront : skipBlanks (c :: t) with _ | ⟨d, u⟩
    · simp [hfront] at hskip
    · refine ⟨d, u, rfl, fun hd => ?_⟩
      have hb := isBlank_of_skipBlanks hfront
      rw [hfront] at hskip
      simp only [delimiters, List.mem_cons, List.not_mem_nil, or_false] at hd
      rcases hd with rfl | rfl | rfl | rfl | rfl | rfl | rfl <;>
        simp_all [isBlank, show isDigit ',' = false by decide, show isDigit ']' = false by decide,
          show isDigit '}' = false by decide]

lemma ValueText.skipBlanks_append (h : ValueText t) :
    ∃ c u, c ∉ delimiters ∧ ∀ r, skipBlanks (t ++ r) = c :: (u ++ r) := by
  obtain ⟨c, u, hfront, hc⟩ := h.front
  refine ⟨c, u, hc, fun r => ?_⟩
  rw [skipBlanks] at hfront ⊢
  rw [List.dropWhile_append, hfront]
  rfl

lemma ValueText.length_pos (h : ValueText t) : 0 < t.length := by
  obtain ⟨c, u, hfront, _⟩ := h.front
  refine List.length_pos_of_ne_nil ?_
  rintro rfl
  simp [skipBlanks] at hfront

/-- A text starts with one value in at most one way. -/
lemma ValueText.unique (h : ValueText t) (h' : ValueText t') (hr : Ends r) (hr' : Ends r')
    (heq : t ++ r = t' ++ r') : t = t' ∧ r = r' := by
  have hskip := h r hr (t ++ t') (by simp)
  rw [heq, h' r' hr' (t ++ t') (by simp)] at hskip
  obtain rfl : r' = r := by simpa using hskip
  exact ⟨List.append_cancel_right heq, rfl⟩

end ValueText

/-! ### Lists -/

/-- What stands in front of a part of a list or object: nothing if it is the first, else a
comma. -/
inductive Lead : Bool → List Char → Prop
  | first : Lead true []
  | comma {b : List Char} : Blanks b → Lead false (b ++ [','])

/-- The rest of a list after its bracket or after an item, with the texts of the items in it. -/
inductive ItemsText : Bool → List Char → List (List Char) → Prop
  | done {first : Bool} {b : List Char} : Blanks b → ItemsText first (b ++ [']']) []
  | more {first : Bool} {p t s : List Char} {ts : List (List Char)} :
    Lead first p → ValueText t → ItemsText false s ts → ItemsText first (p ++ (t ++ s)) (t :: ts)

section ItemsText

variable {b p t s r cs : List Char} {ts : List (List Char)} {first : Bool}

lemma nextItem_done (h : Blanks b) : nextItem first (b ++ ']' :: r) = .ok (.done r) := by
  simp only [nextItem, skipBlanks_append_cons h (show isBlank ']' = false by decide)]

lemma nextItem_more (hp : Lead first p) (ht : ValueText t) :
    nextItem first (p ++ (t ++ r)) = .ok (.more (skipBlanks (t ++ r))) := by
  obtain ⟨c, u, hc, hfront⟩ := ht.skipBlanks_append
  have hclose : c ≠ ']' := by
    rintro rfl
    exact hc (by decide)
  cases hp with
  | first => simp [nextItem, hfront]
  | comma hb =>
    rw [nextItem, List.append_assoc, List.singleton_append,
      skipBlanks_append_cons hb (by decide)]
    simp [hfront, hclose]

lemma nextItem_eq_done (h : nextItem first cs = .ok (.done r)) :
    ∃ b, Blanks b ∧ cs = b ++ ']' :: r := by
  obtain ⟨b, hb, hcs⟩ := exists_blanks cs
  refine ⟨b, hb, ?_⟩
  rw [nextItem] at h
  split at h
  · simp at h
  · next r' heq =>
    obtain rfl : r' = r := by simpa using h
    rwa [← heq]
  · split at h
    · simp at h
    · split at h
      · split at h <;> simp at h
      · simp at h

lemma nextItem_eq_more (h : nextItem first cs = .ok (.more r)) :
    ∃ p cs', Lead first p ∧ cs = p ++ cs' ∧ r = skipBlanks cs' := by
  obtain ⟨b, hb, hcs⟩ := exists_blanks cs
  rw [nextItem] at h
  split at h
  · simp at h
  · simp at h
  · next c r' _ heq =>
    split at h
    · next hfirst =>
      obtain rfl : c :: r' = r := by simpa using h
      exact ⟨[], cs, hfirst ▸ .first, rfl, heq.symm⟩
    · next hfirst =>
      split at h
      · next hc =>
        obtain rfl : first = false := by simpa using hfirst
        refine ⟨b ++ [','], r', .comma hb, ?_, ?_⟩
        · rw [List.append_assoc, List.singleton_append, ← hc, ← heq]
          exact hcs
        · split at h <;> simp_all
      · simp at h

lemma ends_comma (h : Lead false p) : Ends (p ++ r) := by
  cases h with
  | comma hb =>
    rw [List.append_assoc, List.singleton_append]
    exact ends_of_skipBlanks (skipBlanks_append_cons hb (by decide)) (by decide)

lemma ItemsText.ends (h : ItemsText false s ts) : Ends (s ++ r) := by
  cases h with
  | done hb =>
    rw [List.append_assoc, List.singleton_append]
    exact ends_of_skipBlanks (skipBlanks_append_cons hb (by decide)) (by decide)
  | more hp _ _ =>
    rw [List.append_assoc]
    exact ends_comma hp

lemma Lead.unique {p' x x' : List Char} (h : Lead first p) (h' : Lead first p')
    (heq : p ++ x = p' ++ x') : x = x' := by
  cases h with
  | first =>
    cases h' with
    | first => exact heq
  | comma hb =>
    cases h' with
    | comma hb' =>
      have := congrArg skipBlanks heq
      simpa [skipBlanks_append_cons hb (show isBlank ',' = false by decide),
        skipBlanks_append_cons hb' (show isBlank ',' = false by decide)] using this

/-- A text is cut into the items of a list in at most one way. -/
lemma ItemsText.unique {s' r' : List Char} {ts' : List (List Char)} (h : ItemsText first s ts)
    (h' : ItemsText first s' ts') (heq : s ++ r = s' ++ r') : ts = ts' ∧ r = r' := by
  induction h generalizing s' ts' with
  | @done first b hb =>
    have hnext : nextItem first (b ++ ']' :: r) = .ok (.done r) := nextItem_done hb
    rw [List.append_assoc, List.singleton_append] at heq
    cases h' with
    | done hb' =>
      rw [heq, List.append_assoc, List.singleton_append, nextItem_done hb'] at hnext
      exact ⟨rfl, by simpa using hnext.symm⟩
    | more hp' ht' _ =>
      rw [heq, List.append_assoc, List.append_assoc, nextItem_more hp' ht'] at hnext
      simp at hnext
  | @more first p t s ts hp ht hs ih =>
    simp only [List.append_assoc] at heq
    cases h' with
    | @done _ b hb' =>
      have hnext : nextItem first (b ++ ']' :: r') = .ok (.done r') := nextItem_done hb'
      rw [← List.singleton_append, ← List.append_assoc, ← heq, nextItem_more hp ht] at hnext
      simp at hnext
    | more hp' ht' hs' =>
      simp only [List.append_assoc] at heq
      obtain ⟨rfl, hrest⟩ := ht.unique ht' hs.ends hs'.ends (hp.unique hp' heq)
      obtain ⟨rfl, rfl⟩ := ih hs' hrest
      exact ⟨rfl, rfl⟩

lemma skipItems_sound {skip : List Char → Except TextError (List Char)}
    (hskip : ∀ cs r, skip cs = .ok r → ∃ t, cs = t ++ r ∧ ValueText t) {fuel : List Char}
    (h : skipItems skip fuel first cs = .ok r) : ∃ s ts, cs = s ++ r ∧ ItemsText first s ts := by
  induction fuel generalizing first cs with
  | nil => simp [skipItems] at h
  | cons _ fuel ih =>
    obtain ⟨b, hb, hcs⟩ := exists_blanks cs
    rw [skipItems] at h
    split at h
    · simp at h
    · next r' heq =>
      obtain rfl : r' = r := by simpa using h
      exact ⟨b ++ [']'], [], by simpa [heq] using hcs, .done hb⟩
    · next c r' _ heq =>
      rw [heq] at hcs
      split at h
      · next hfirst =>
        obtain ⟨r₁, hr₁, hrest⟩ := bind_eq_ok.1 h
        obtain ⟨t, ht, hvalue⟩ := hskip _ _ hr₁
        obtain ⟨s, ts, rfl, hs⟩ := ih hrest
        refine ⟨(b ++ t) ++ s, (b ++ t) :: ts, by simp [hcs, ht], ?_⟩
        exact hfirst ▸ .more .first (hvalue.blanks hb) hs
      · next hfirst =>
        split at h
        · next hc =>
          obtain ⟨r₁, hr₁, hrest⟩ := bind_eq_ok.1 h
          obtain ⟨t, rfl, hvalue⟩ := hskip _ _ hr₁
          obtain ⟨s, ts, rfl, hs⟩ := ih hrest
          obtain rfl : first = false := by simpa using hfirst
          exact ⟨_, t :: ts, by simp [hcs, hc], .more (.comma hb) hvalue hs⟩
        · simp at h

lemma skipItems_more {bound fuel : List Char} {c : Char} (hp : Lead first p) (ht : ValueText t) :
    skipItems (skip bound) (c :: fuel) first (p ++ (t ++ r)) =
      skip bound (t ++ r) >>= skipItems (skip bound) fuel false := by
  cases hp with
  | first =>
    obtain ⟨c, u, hc, hfront⟩ := ht.skipBlanks_append
    have hclose : c ≠ ']' := by
      rintro rfl
      exact hc (by decide)
    rw [List.nil_append, ← skip_skipBlanks bound (t ++ r), skipItems, hfront]
    simp
  | comma hb =>
    rw [skipItems, List.append_assoc, List.singleton_append,
      skipBlanks_append_cons hb (by decide)]
    simp

lemma skipItems_complete {bound fuel : List Char} (h : ItemsText first s ts)
    (hbound : s.length ≤ bound.length) (hfuel : s.length ≤ fuel.length) :
    skipItems (skip bound) fuel first (s ++ r) = .ok r := by
  induction h generalizing fuel with
  | done hb =>
    rcases fuel with _ | ⟨_, fuel⟩
    · simp at hfuel
    · simp [skipItems, skipBlanks_append_cons hb (show isBlank ']' = false by decide)]
  | @more first p t s ts hp ht hs ih =>
    have hpos := ht.length_pos
    simp only [List.length_append] at hbound hfuel
    rcases fuel with _ | ⟨_, fuel⟩
    · simp only [List.length_nil] at hfuel
      omega
    · rw [List.append_assoc, List.append_assoc, skipItems_more hp ht,
        ht (s ++ r) hs.ends bound (by omega), ok_bind]
      exact ih (by omega) (by simp at hfuel; omega)

/-- A list is passed over whatever follows it. -/
lemma ItemsText.skip {bound : List Char} (h : ItemsText true s ts)
    (hlen : s.length < bound.length) : Json.skip bound ('[' :: (s ++ r)) = .ok r := by
  rcases bound with _ | ⟨c, bound⟩
  · simp at hlen
  · have hbracket : Json.skip (c :: bound) ('[' :: (s ++ r)) =
        skipItems (Json.skip bound) (s ++ r) true (s ++ r) := rfl
    rw [hbracket]
    exact skipItems_complete h (by simpa [Nat.lt_succ_iff] using hlen) (by simp)

lemma ItemsText.valueText (h : ItemsText true s ts) : ValueText ('[' :: s) :=
  fun _ _ _ hlen => h.skip hlen

variable {α : Type} {item : Scan α} {xs : List α} {fuel : List Char}

lemma items_sound {P : List Char → α → Prop}
    (hitem : ∀ cs a r, item (skipBlanks cs) = .ok (a, r) → ∃ t, cs = t ++ r ∧ ValueText t ∧ P t a)
    (h : items item fuel first cs = .ok (xs, r)) :
    ∃ s ts, cs = s ++ r ∧ ItemsText first s ts ∧ List.Forall₂ P ts xs := by
  induction fuel generalizing first cs xs with
  | nil => simp [items] at h
  | cons _ fuel ih =>
    rw [items] at h
    obtain ⟨next, hnext, hloop⟩ := bind_eq_ok.1 h
    rw [liftText_eq_ok] at hnext
    rcases next with cs' | r'
    · obtain ⟨p, cs'', hp, rfl, rfl⟩ := nextItem_eq_more hnext
      obtain ⟨⟨x, r₁⟩, hx, hitems⟩ := bind_eq_ok.1 hloop
      obtain ⟨⟨xs', r₂⟩, hxs, hend⟩ := bind_eq_ok.1 hitems
      obtain ⟨rfl, rfl⟩ : x :: xs' = xs ∧ r₂ = r := by simpa using hend
      obtain ⟨t, rfl, ht, hpt⟩ := hitem _ _ _ hx
      obtain ⟨s, ts, rfl, hs, hall⟩ := ih hxs
      exact ⟨p ++ (t ++ s), t :: ts, by simp, .more hp ht hs, .cons hpt hall⟩
    · obtain ⟨rfl, rfl⟩ : [] = xs ∧ r' = r := by simpa using hloop
      obtain ⟨b, hb, rfl⟩ := nextItem_eq_done hnext
      exact ⟨b ++ [']'], [], by simp, .done hb, .nil⟩

lemma items_complete (h : ItemsText first s ts)
    (hitem : List.Forall₂ (fun t x => ∀ r, Ends r → item (skipBlanks (t ++ r)) = .ok (x, r)) ts xs)
    (hfuel : s.length ≤ fuel.length) : items item fuel first (s ++ r) = .ok (xs, r) := by
  induction h generalizing fuel xs with
  | done hb =>
    obtain rfl : xs = [] := by simpa using hitem
    rcases fuel with _ | ⟨_, fuel⟩
    · simp at hfuel
    · rw [items, List.append_assoc, List.singleton_append, nextItem_done hb]
      rfl
  | @more first p t s ts hp ht hs ih =>
    have hpos := ht.length_pos
    simp only [List.length_append] at hfuel
    cases hitem with
    | cons hx hxs =>
      rcases fuel with _ | ⟨_, fuel⟩
      · simp only [List.length_nil] at hfuel
        omega
      · have hrest := @ih _ fuel hxs (by simp at hfuel; omega)
        rw [items, List.append_assoc, List.append_assoc, nextItem_more hp ht, liftText_ok, ok_bind]
        simp only [hx (s ++ r) hs.ends, ok_bind, hrest, pure_eq_ok]

end ItemsText

/-! ### Objects -/

/-- The rest of an object after its bracket or after an entry, with the keys and the texts of the
entries in it. What the text of a key stands for is left open. -/
inductive EntriesText {κ : Type} (Key : List Char → κ → Prop) :
    Bool → List Char → List (κ × List Char) → Prop
  | done {first : Bool} {b : List Char} : Blanks b → EntriesText Key first (b ++ ['}']) []
  | more {first : Bool} {p b q b' t s : List Char} {k : κ} {es : List (κ × List Char)} :
    Lead first p → Blanks b → Key q k → Blanks b' → ValueText t → EntriesText Key false s es →
      EntriesText Key first (p ++ (b ++ '"' :: (q ++ (b' ++ ':' :: (t ++ s))))) ((k, t) :: es)

/-- The text of a key with its closing quote is passed over. -/
def Skipped (q : List Char) (_ : Unit) : Prop := ∀ r, skipString (q ++ r) = .ok r

/-- The text of a key with its closing quote reads as the key. -/
def Named (q : List Char) (k : String) : Prop := ∃ s, StringText q s ∧ k = String.ofList s

section EntriesText

variable {κ : Type} {Key : List Char → κ → Prop} {p b q t s r cs fuel bound : List Char} {k : κ}
  {es : List (κ × List Char)} {first : Bool}

lemma colon_append (h : Blanks b) : colon (b ++ ':' :: r) = .ok r := by
  simp only [colon, skipBlanks_append_cons h (show isBlank ':' = false by decide)]

lemma colon_eq_ok (h : colon cs = .ok r) : ∃ b, Blanks b ∧ cs = b ++ ':' :: r := by
  obtain ⟨b, hb, hcs⟩ := exists_blanks cs
  refine ⟨b, hb, ?_⟩
  rw [colon] at h
  split at h
  · next r' heq =>
    obtain rfl : r' = r := by simpa using h
    rwa [← heq]
  · simp at h
  · simp at h

lemma nextKey_done (h : Blanks b) : nextKey first (b ++ '}' :: r) = .ok (.done r) := by
  simp only [nextKey, skipBlanks_append_cons h (show isBlank '}' = false by decide)]

lemma nextKey_more (hp : Lead first p) (hb : Blanks b) :
    nextKey first (p ++ (b ++ '"' :: r)) = .ok (.more r) := by
  have hquote : skipBlanks (b ++ '"' :: r) = '"' :: r := skipBlanks_append_cons hb (by decide)
  cases hp with
  | first => simp [nextKey, hquote]
  | comma hb' =>
    rw [nextKey, List.append_assoc, List.singleton_append,
      skipBlanks_append_cons hb' (by decide)]
    simp [hquote]

lemma nextKey_eq_done (h : nextKey first cs = .ok (.done r)) :
    ∃ b, Blanks b ∧ cs = b ++ '}' :: r := by
  obtain ⟨b, hb, hcs⟩ := exists_blanks cs
  refine ⟨b, hb, ?_⟩
  rw [nextKey] at h
  split at h
  · simp at h
  · next r' heq =>
    obtain rfl : r' = r := by simpa using h
    rwa [← heq]
  · split at h
    · split at h <;> simp at h
    · split at h
      · split at h <;> simp at h
      · simp at h

lemma nextKey_eq_more (h : nextKey first cs = .ok (.more r)) :
    ∃ p b, Lead first p ∧ Blanks b ∧ cs = p ++ (b ++ '"' :: r) := by
  obtain ⟨b, hb, hcs⟩ := exists_blanks cs
  rw [nextKey] at h
  split at h
  · simp at h
  · simp at h
  · next c r' _ heq =>
    split at h
    · next hfirst =>
      split at h
      · next hc =>
        obtain rfl : r' = r := by simpa using h
        refine ⟨[], b, hfirst ▸ .first, hb, ?_⟩
        rw [List.nil_append, ← hc, ← heq]
        exact hcs
      · simp at h
    · next hfirst =>
      obtain rfl : first = false := by simpa using hfirst
      split at h
      · next hc =>
        obtain ⟨b', hb', hr'⟩ := exists_blanks r'
        split at h
        · simp at h
        · next r'' heq' =>
          obtain rfl : r'' = r := by simpa using h
          refine ⟨b ++ [','], b', .comma hb, hb', ?_⟩
          rw [List.append_assoc, List.singleton_append, ← heq', ← hr', ← hc, ← heq]
          exact hcs
        · simp at h
        · simp at h
      · simp at h

lemma EntriesText.ends (h : EntriesText Key false s es) : Ends (s ++ r) := by
  cases h with
  | done hb =>
    rw [List.append_assoc, List.singleton_append]
    exact ends_of_skipBlanks (skipBlanks_append_cons hb (by decide)) (by decide)
  | more hp _ _ _ _ _ =>
    rw [List.append_assoc]
    exact ends_comma hp

/-- A text is cut into the entries of an object in at most one way. -/
lemma EntriesText.unique {s' r' : List Char} {es es' : List (String × List Char)}
    (h : EntriesText Named first s es) (h' : EntriesText Named first s' es')
    (heq : s ++ r = s' ++ r') : es = es' ∧ r = r' := by
  induction h generalizing s' es' with
  | @done first b hb =>
    have hnext : nextKey first (b ++ '}' :: r) = .ok (.done r) := nextKey_done hb
    rw [List.append_assoc, List.singleton_append] at heq
    cases h' with
    | done hb' =>
      rw [heq, List.append_assoc, List.singleton_append, nextKey_done hb'] at hnext
      exact ⟨rfl, by simpa using hnext.symm⟩
    | more hp' hb' _ _ _ _ =>
      rw [heq, List.append_assoc, List.append_assoc, List.cons_append,
        nextKey_more hp' hb'] at hnext
      simp at hnext
  | @more first p b q c t s k es hp hb hk hc ht hs ih =>
    have hnext : nextKey first (p ++ (b ++ '"' :: (q ++ (c ++ ':' :: (t ++ (s ++ r)))))) =
      .ok (.more (q ++ (c ++ ':' :: (t ++ (s ++ r))))) := nextKey_more hp hb
    simp only [List.append_assoc, List.cons_append] at heq
    rw [heq] at hnext
    cases h' with
    | done hb' =>
      rw [List.append_assoc, List.singleton_append, nextKey_done hb'] at hnext
      simp at hnext
    | more hp' hb' hk' hc' ht' hs' =>
      simp only [List.append_assoc, List.cons_append, nextKey_more hp' hb', Except.ok.injEq,
        Next.more.injEq] at hnext
      obtain ⟨w, hw, rfl⟩ := hk
      obtain ⟨w', hw', rfl⟩ := hk'
      have hread := congrArg string hnext
      rw [hw.reads, hw'.reads, Except.ok.injEq, Prod.mk.injEq] at hread
      obtain ⟨rfl, hcolon⟩ := hread
      replace hcolon := congrArg colon hcolon
      rw [colon_append hc, colon_append hc', Except.ok.injEq] at hcolon
      obtain ⟨rfl, hrest⟩ := ht'.unique ht hs'.ends hs.ends hcolon
      replace hrest := hrest.symm
      obtain ⟨rfl, rfl⟩ := ih hs' hrest
      exact ⟨rfl, rfl⟩

lemma skipKey_append (hb : Blanks b) (hq : Skipped q ()) {b' : List Char} (hb' : Blanks b') :
    skipKey (b ++ '"' :: (q ++ (b' ++ ':' :: r))) = .ok r := by
  rw [skipKey, skipBlanks_append_cons hb (by decide)]
  simp only [hq (b' ++ ':' :: r), ok_bind, colon_append hb']

lemma skipKey_eq_ok (h : skipKey cs = .ok r) :
    ∃ b q b', Blanks b ∧ Skipped q () ∧ Blanks b' ∧ cs = b ++ '"' :: (q ++ (b' ++ ':' :: r)) := by
  obtain ⟨b, hb, hcs⟩ := exists_blanks cs
  rw [skipKey] at h
  split at h
  · simp at h
  · next r' heq =>
    obtain ⟨r₁, hr₁, hcolon⟩ := bind_eq_ok.1 h
    obtain ⟨q, rfl, hq⟩ := skipString_local hr₁
    obtain ⟨b', hb', rfl⟩ := colon_eq_ok hcolon
    exact ⟨b, q, b', hb, hq, hb', heq ▸ hcs⟩
  · simp at h

lemma skipEntries_sound {skip : List Char → Except TextError (List Char)}
    (hskip : ∀ cs r, skip cs = .ok r → ∃ t, cs = t ++ r ∧ ValueText t)
    (h : skipEntries skip fuel first cs = .ok r) :
    ∃ s es, cs = s ++ r ∧ EntriesText Skipped first s es := by
  induction fuel generalizing first cs with
  | nil => simp [skipEntries] at h
  | cons _ fuel ih =>
    obtain ⟨b, hb, hcs⟩ := exists_blanks cs
    -- one entry after what stands in front of it
    have entry {p cs' r₁ r₂ : List Char} (hp : Lead first p) (hcs' : cs = p ++ cs')
        (hkey : skipKey cs' = .ok r₁) (hvalue : skip r₁ = .ok r₂)
        (hrest : skipEntries skip fuel false r₂ = .ok r) :
        ∃ s es, cs = s ++ r ∧ EntriesText Skipped first s es := by
      obtain ⟨b, q, b', hb, hq, hb', rfl⟩ := skipKey_eq_ok hkey
      obtain ⟨t, rfl, ht⟩ := hskip _ _ hvalue
      obtain ⟨s, es, rfl, hs⟩ := ih hrest
      exact ⟨_, ((), t) :: es, by simp [hcs'], .more hp hb hq hb' ht hs⟩
    rw [skipEntries] at h
    split at h
    · simp at h
    · next r' heq =>
      obtain rfl : r' = r := by simpa using h
      exact ⟨b ++ ['}'], [], by simpa [heq] using hcs, .done hb⟩
    · next c r' _ heq =>
      split at h
      · next hfirst =>
        obtain ⟨r₁, hkey, h⟩ := bind_eq_ok.1 h
        obtain ⟨r₂, hvalue, hrest⟩ := bind_eq_ok.1 h
        refine entry (hfirst ▸ .first) (List.nil_append _).symm ?_ hvalue hrest
        rw [skipKey, ← skipBlanks_skipBlanks, heq]
        exact hkey
      · next hfirst =>
        obtain rfl : first = false := by simpa using hfirst
        split at h
        · next hc =>
          obtain ⟨r₁, hkey, h⟩ := bind_eq_ok.1 h
          obtain ⟨r₂, hvalue, hrest⟩ := bind_eq_ok.1 h
          exact entry (.comma hb) (by simpa [heq, hc] using hcs) hkey hvalue hrest
        · simp at h

lemma skipEntries_more {c : Char} {b' : List Char} (hp : Lead first p) (hb : Blanks b)
    (hq : Skipped q ()) (hb' : Blanks b') :
    skipEntries (skip bound) (c :: fuel) first (p ++ (b ++ '"' :: (q ++ (b' ++ ':' :: r)))) =
      skip bound r >>= skipEntries (skip bound) fuel false := by
  cases hp with
  | first =>
    have hkey := skipKey_append (r := r) blanks_nil hq hb'
    rw [skipEntries, List.nil_append, skipBlanks_append_cons hb (by decide)]
    simpa using congrArg (· >>= fun r => skip bound r >>= skipEntries (skip bound) fuel false) hkey
  | comma hb'' =>
    rw [skipEntries, List.append_assoc, List.singleton_append,
      skipBlanks_append_cons hb'' (by decide)]
    simp [skipKey_append hb hq hb']

lemma skipEntries_complete (hkey : ∀ q k, Key q k → Skipped q ()) (h : EntriesText Key first s es)
    (hbound : s.length ≤ bound.length) (hfuel : s.length ≤ fuel.length) :
    skipEntries (skip bound) fuel first (s ++ r) = .ok r := by
  induction h generalizing fuel with
  | done hb =>
    rcases fuel with _ | ⟨_, fuel⟩
    · simp at hfuel
    · simp [skipEntries, skipBlanks_append_cons hb (show isBlank '}' = false by decide)]
  | @more first p b q c t s k es hp hb hq hc ht hs ih =>
    simp only [List.length_append, List.length_cons] at hbound hfuel
    rcases fuel with _ | ⟨_, fuel⟩
    · simp only [List.length_nil] at hfuel
      omega
    · simp only [List.append_assoc, List.cons_append]
      rw [skipEntries_more hp hb (hkey q k hq) hc, ht (s ++ r) hs.ends bound (by omega), ok_bind]
      exact ih (by omega) (by simp at hfuel; omega)

/-- An object is passed over whatever follows it. -/
lemma EntriesText.skip (hkey : ∀ q k, Key q k → Skipped q ()) (h : EntriesText Key true s es)
    (hlen : s.length < bound.length) : Json.skip bound ('{' :: (s ++ r)) = .ok r := by
  rcases bound with _ | ⟨c, bound⟩
  · simp at hlen
  · have hbracket : Json.skip (c :: bound) ('{' :: (s ++ r)) =
        skipEntries (Json.skip bound) (s ++ r) true (s ++ r) := rfl
    rw [hbracket]
    exact skipEntries_complete hkey h (by simpa [Nat.lt_succ_iff] using hlen) (by simp)

lemma EntriesText.valueText (hkey : ∀ q k, Key q k → Skipped q ())
    (h : EntriesText Key true s es) : ValueText ('{' :: s) :=
  fun _ _ _ hlen => h.skip hkey hlen

lemma Named.skipped {k : String} (h : Named q k) : Skipped q () := by
  obtain ⟨s, hs, rfl⟩ := h
  exact hs.skips

/-- What is passed over is the text of a value. -/
theorem skip_sound (h : skip bound cs = .ok r) : ∃ t, cs = t ++ r ∧ ValueText t := by
  induction bound generalizing cs r with
  | nil => simp [skip] at h
  | cons c bound ih =>
    rw [skip_cons] at h
    obtain ⟨t, rfl, ht⟩ | ⟨b, s, hb, ⟨rfl, hlist⟩ | ⟨rfl, hobject⟩⟩ := skipWith_cases h
    · exact ⟨t, rfl, ht.valueText⟩
    · obtain ⟨s, ts, rfl, hs⟩ := skipItems_sound (fun _ _ => ih) hlist
      exact ⟨b ++ '[' :: s, by simp, hs.valueText.blanks hb⟩
    · obtain ⟨s, es, rfl, hs⟩ := skipEntries_sound (fun _ _ => ih) hobject
      exact ⟨b ++ '{' :: s, by simp, (hs.valueText fun _ _ h => h).blanks hb⟩

end EntriesText

/-! ### Folds over the entries of an object -/

/-- A fold from the left by steps that a relation allows. -/
inductive Steps {σ ε : Type} (step : σ → ε → σ → Prop) : σ → List ε → σ → Prop
  | nil {a : σ} : Steps step a [] a
  | cons {a b c : σ} {e : ε} {es : List ε} :
    step a e b → Steps step b es c → Steps step a (e :: es) c

/-- Reading the colon and value of one entry takes exactly the given steps. -/
structure EntryReader {σ : Type} (entry : σ → String → Scan σ)
    (step : σ → String × List Char → σ → Prop) : Prop where
  sound {acc acc' : σ} {k : String} {cs r : List Char} : entry acc k cs = .ok (acc', r) →
    ∃ b t, Blanks b ∧ cs = b ++ ':' :: (t ++ r) ∧ ValueText t ∧ step acc (k, t) acc'
  complete {acc acc' : σ} {k : String} {b t r : List Char} : Blanks b → ValueText t → Ends r →
    step acc (k, t) acc' → entry acc k (b ++ ':' :: (t ++ r)) = .ok (acc', r)

section foldEntries

variable {σ : Type} {entry : σ → String → Scan σ} {step : σ → String × List Char → σ → Prop}
  {acc acc' : σ} {cs s r fuel : List Char} {es : List (String × List Char)} {first : Bool}

lemma foldEntries_sound (hentry : EntryReader entry step)
    (h : foldEntries entry fuel first acc cs = .ok (acc', r)) :
    ∃ s es, cs = s ++ r ∧ EntriesText Named first s es ∧ Steps step acc es acc' := by
  induction fuel generalizing first cs acc with
  | nil => simp [foldEntries] at h
  | cons _ fuel ih =>
    rw [foldEntries] at h
    obtain ⟨next, hnext, hloop⟩ := bind_eq_ok.1 h
    rw [liftText_eq_ok] at hnext
    rcases next with cs' | r'
    · obtain ⟨p, b, hp, hb, rfl⟩ := nextKey_eq_more hnext
      obtain ⟨⟨w, r₁⟩, hw, hentries⟩ := bind_eq_ok.1 hloop
      obtain ⟨⟨acc₁, r₂⟩, hacc, hrest⟩ := bind_eq_ok.1 hentries
      obtain ⟨q, rfl, hq⟩ := string_local (liftText_eq_ok.1 hw)
      obtain ⟨b', t, hb', rfl, ht, hstep⟩ := hentry.sound hacc
      obtain ⟨s, es, rfl, hs, hsteps⟩ := ih hrest
      exact ⟨_, (_, t) :: es, by simp, .more hp hb ⟨w, hq, rfl⟩ hb' ht hs, .cons hstep hsteps⟩
    · obtain ⟨rfl, rfl⟩ : acc = acc' ∧ r' = r := by simpa using hloop
      obtain ⟨b, hb, rfl⟩ := nextKey_eq_done hnext
      exact ⟨b ++ ['}'], [], by simp, .done hb, .nil⟩

lemma foldEntries_complete (hentry : EntryReader entry step) (h : EntriesText Named first s es)
    (hsteps : Steps step acc es acc') (hfuel : s.length ≤ fuel.length) :
    foldEntries entry fuel first acc (s ++ r) = .ok (acc', r) := by
  induction h generalizing fuel acc with
  | done hb =>
    cases hsteps
    rcases fuel with _ | ⟨_, fuel⟩
    · simp at hfuel
    · rw [foldEntries, List.append_assoc, List.singleton_append, nextKey_done hb]
      rfl
  | @more first p b q c t s k es hp hb hq hc ht hs ih =>
    simp only [List.length_append, List.length_cons] at hfuel
    obtain ⟨w, hw, rfl⟩ := hq
    cases hsteps with
    | cons hstep hsteps =>
      rcases fuel with _ | ⟨_, fuel⟩
      · simp only [List.length_nil] at hfuel
        omega
      · have hrest := @ih _ fuel hsteps (by simp at hfuel; omega)
        simp only [List.append_assoc, List.cons_append]
        rw [foldEntries, nextKey_more hp hb, liftText_ok, ok_bind]
        simp only [hw.reads, liftText_ok, ok_bind, hentry.complete hc ht hs.ends hstep, hrest]

end foldEntries

end ZodGraph.Json
