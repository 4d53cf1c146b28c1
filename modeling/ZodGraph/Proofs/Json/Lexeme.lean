import Mathlib.Data.List.Basic
import Mathlib.Data.List.TakeWhile
import Mathlib.Tactic
import ZodGraph.Json.Text

/-!
Pieces of JSON text are read one by one: what is read depends on the piece in front and not on
what follows it, and passing over a piece ends where reading it does.
-/

namespace ZodGraph.Json

/-! ### Results -/

section Results

variable {ε α β : Type} {a : α} {b : β}

@[simp] lemma ok_bind (f : α → Except ε β) : (Except.ok a >>= f) = f a := rfl

@[simp] lemma pure_eq_ok : (pure a : Except ε α) = .ok a := rfl

@[simp] lemma throw_eq_error (e : ε) : (throw e : Except ε α) = .error e := rfl

lemma bind_eq_ok {x : Except ε α} {f : α → Except ε β} :
    x >>= f = .ok b ↔ ∃ a, x = .ok a ∧ f a = .ok b := by
  rcases x with e | a <;> simp [bind, Except.bind]

@[simp] lemma liftText_eq_ok {x : Except TextError α} : liftText x = .ok a ↔ x = .ok a := by
  rcases x with e | a <;> simp [liftText, Except.mapError]

@[simp] lemma liftText_ok : liftText (.ok a) = .ok a := rfl

end Results

/-! ### Blanks and ends -/

def Blanks (b : List Char) : Prop := ∀ c ∈ b, isBlank c

section Blanks

variable {b b' cs r : List Char} {c : Char}

lemma blanks_nil : Blanks [] := by simp [Blanks]

lemma Blanks.append (h : Blanks b) (h' : Blanks b') : Blanks (b ++ b') := by
  intro c hc
  exact (List.mem_append.1 hc).elim (h c) (h' c)

lemma skipBlanks_append (h : Blanks b) : skipBlanks (b ++ cs) = skipBlanks cs := by
  induction b with
  | nil => rfl
  | cons c b ih =>
    have hc : isBlank c = true := h c (by simp)
    rw [List.cons_append, skipBlanks, List.dropWhile_cons_of_pos hc]
    exact ih fun d hd => h d (by simp [hd])

lemma skipBlanks_cons (h : isBlank c = false) : skipBlanks (c :: cs) = c :: cs := by
  rw [skipBlanks, List.dropWhile_cons_of_neg (by simp [h])]

lemma skipBlanks_append_cons (hb : Blanks b) (hc : isBlank c = false) :
    skipBlanks (b ++ c :: cs) = c :: cs := by
  rw [skipBlanks_append hb, skipBlanks_cons hc]

lemma exists_blanks (cs : List Char) : ∃ b, Blanks b ∧ cs = b ++ skipBlanks cs :=
  ⟨cs.takeWhile isBlank, fun _ hc => List.mem_takeWhile_imp hc,
    (List.takeWhile_append_dropWhile ..).symm⟩

lemma isBlank_of_skipBlanks (h : skipBlanks cs = c :: r) : isBlank c = false := by
  have := List.head?_dropWhile_not isBlank cs
  unfold skipBlanks at h
  simpa [h] using this

@[simp] lemma skipBlanks_skipBlanks : skipBlanks (skipBlanks cs) = skipBlanks cs := by
  rcases h : skipBlanks cs with _ | ⟨c, r⟩
  · rfl
  · exact skipBlanks_cons (isBlank_of_skipBlanks h)

lemma skipBlanks_eq_nil (h : Blanks b) : skipBlanks b = [] := by
  rw [← List.append_nil b, skipBlanks_append h]
  rfl

lemma blanks_of_skipBlanks (h : skipBlanks cs = []) : Blanks cs := by
  obtain ⟨b, hb, hcs⟩ := exists_blanks cs
  rwa [hcs, h, List.append_nil]

end Blanks

/-- The characters that may follow a value. -/
def delimiters : List Char := [' ', '\n', '\t', '\r', ',', ']', '}']

/-- The text is at its end, or a value may end here. -/
def Ends (r : List Char) : Prop := ∀ c ∈ r.head?, c ∈ delimiters

/-- No digit comes next. -/
def NoDigit (r : List Char) : Prop := ∀ c ∈ r.head?, isDigit c = false

section Ends

variable {r s : List Char} {c : Char}

lemma ends_nil : Ends [] := by simp [Ends]

lemma ends_cons : Ends (c :: r) ↔ c ∈ delimiters := by simp [Ends]

lemma isBlank_mem_delimiters (h : isBlank c) : c ∈ delimiters := by
  have : c = ' ' ∨ c = '\n' ∨ c = '\t' ∨ c = '\r' := by simpa [isBlank, or_assoc] using h
  rcases this with rfl | rfl | rfl | rfl <;> decide

/-- A value ends in front of blanks that a delimiter follows. -/
lemma ends_of_skipBlanks (h : skipBlanks r = c :: s) (hc : c ∈ delimiters) : Ends r := by
  obtain ⟨b, hb, hr⟩ := exists_blanks r
  rw [hr, h]
  rcases b with _ | ⟨d, b⟩
  · exact ends_cons.2 hc
  · exact ends_cons.2 (isBlank_mem_delimiters (hb d (by simp)))

lemma ends_of_blanks (h : Blanks r) : Ends r := by
  rcases r with _ | ⟨c, r⟩
  · exact ends_nil
  · exact ends_cons.2 (isBlank_mem_delimiters (h c (by simp)))

lemma Ends.of_all {p : Char → Bool} (h : Ends r) (hall : delimiters.all p) :
    ∀ c ∈ r.head?, p c :=
  fun c hc => List.all_eq_true.1 hall c (h c hc)

lemma Ends.noDigit (h : Ends r) : NoDigit r := by
  intro c hc
  simpa using h.of_all (p := fun d => !isDigit d) (by decide) c hc

end Ends

/-! ### Words and strings -/

lemma word_eq_ok_iff {ws cs r : List Char} : word ws cs = .ok r ↔ cs = ws ++ r := by
  induction ws generalizing cs with
  | nil => simp [word, eq_comm]
  | cons w ws ih =>
    rcases cs with _ | ⟨c, cs⟩
    · simp [word]
    · by_cases hc : c = w <;> simp [word, hc, ih]

lemma push_eq_ok {c : Char} {x : Except TextError (List Char × List Char)} {s r : List Char} :
    push c x = .ok (s, r) ↔ ∃ s', x = .ok (s', r) ∧ s = c :: s' := by
  rcases x with e | ⟨s', r'⟩
  · simp [push, Except.map]
  · simp [push, Except.map]
    tauto

/-- The text, with its closing quote, reads as the string. -/
structure StringText (t s : List Char) : Prop where
  reads : ∀ r, string (t ++ r) = .ok (s, r)
  skips : ∀ r, skipString (t ++ r) = .ok r

lemma StringText.cons {front t s : List Char} {c : Char} (h : StringText t s)
    (hreads : ∀ r, string (front ++ r) = push c (string r))
    (hskips : ∀ r, skipString (front ++ r) = skipString r) :
    StringText (front ++ t) (c :: s) where
  reads r := by rw [List.append_assoc, hreads, h.reads]; rfl
  skips r := by rw [List.append_assoc, hskips, h.skips]

lemma plain_of_ne {c : Char} (hq : c ≠ '"') (hb : c ≠ '\\') (hc : ¬ c.toNat < 32) (r : List Char) :
    string (c :: r) = push c (string r) ∧ skipString (c :: r) = skipString r := by
  constructor
  · rw [string, if_neg hc] <;> simp_all
  · rw [skipString, if_neg hc] <;> simp_all

lemma simple_escape {c e : Char} (h : simpleEscape? c = some e) (r : List Char) :
    string ('\\' :: c :: r) = push e (string r) ∧ skipString ('\\' :: c :: r) = skipString r := by
  have hu : c ≠ 'u' := by
    rintro rfl
    simp [simpleEscape?] at h
  constructor
  · rw [string, h] <;> simp_all
  · rw [skipString, h] <;> simp_all

theorem string_local {cs s r : List Char} (h : string cs = .ok (s, r)) :
    ∃ t, cs = t ++ r ∧ StringText t s := by
  fun_induction string cs generalizing s r with
  | case2 r' =>
    obtain ⟨rfl, rfl⟩ : [] = s ∧ r' = r := by simpa using h
    exact ⟨['"'], rfl, fun _ => rfl, fun _ => rfl⟩
  | case8 a b c d n hn hlow hhigh e f g k cs m hm hlow' ih =>
    obtain ⟨s', hs, rfl⟩ := push_eq_ok.1 h
    obtain ⟨t, rfl, ht⟩ := ih hs
    refine ⟨['\\', 'u', a, b, c, d, '\\', 'u', e, f, g, k] ++ t, rfl, ht.cons ?_ ?_⟩
    · intro r
      simp [string, hn, hlow, hhigh, hm, hlow']
    · intro r
      simp [skipString, hn, hm]
  | case12 a b c d cs n hn hlow hhigh ih =>
    obtain ⟨s', hs, rfl⟩ := push_eq_ok.1 h
    obtain ⟨t, rfl, ht⟩ := ih hs
    refine ⟨['\\', 'u', a, b, c, d] ++ t, rfl, ht.cons ?_ ?_⟩
    · intro r
      simp [string, hn, hlow, hhigh]
    · intro r
      simp [skipString, hn]
  | case14 c cs _ _ e he ih =>
    obtain ⟨s', hs, rfl⟩ := push_eq_ok.1 h
    obtain ⟨t, rfl, ht⟩ := ih hs
    exact ⟨['\\', c] ++ t, rfl, ht.cons (fun r => (simple_escape he r).1)
      fun r => (simple_escape he r).2⟩
  | case18 c cs hq _ _ hb hb' hc ih =>
    obtain ⟨s', hs, rfl⟩ := push_eq_ok.1 h
    obtain ⟨t, rfl, ht⟩ := ih hs
    have hne : c ≠ '\\' := by
      rintro rfl
      rcases hcs : t ++ r with _ | ⟨d, ds⟩
      · exact hb' rfl hcs
      · exact hb d ds rfl hcs
    exact ⟨[c] ++ t, rfl, ht.cons (fun r => (plain_of_ne hq hne hc r).1)
      fun r => (plain_of_ne hq hne hc r).2⟩
  | _ => simp at h

theorem skipString_local {cs r : List Char} (h : skipString cs = .ok r) :
    ∃ t, cs = t ++ r ∧ ∀ r', skipString (t ++ r') = .ok r' := by
  fun_induction skipString cs generalizing r with
  | case2 r' =>
    obtain rfl : r' = r := by simpa using h
    exact ⟨['"'], rfl, fun _ => rfl⟩
  | case3 a b c d cs hhex ih =>
    obtain ⟨t, rfl, ht⟩ := ih h
    exact ⟨['\\', 'u', a, b, c, d] ++ t, rfl, fun r => by simp [skipString, hhex, ht]⟩
  | case6 c cs _ _ hesc ih =>
    obtain ⟨t, rfl, ht⟩ := ih h
    obtain ⟨e, he⟩ := Option.isSome_iff_exists.1 hesc
    exact ⟨['\\', c] ++ t, rfl, fun r => (simple_escape he _).2.trans (ht r)⟩
  | case10 c cs hq _ _ hb hb' hc ih =>
    obtain ⟨t, rfl, ht⟩ := ih h
    have hne : c ≠ '\\' := by
      rintro rfl
      rcases hcs : t ++ r with _ | ⟨d, ds⟩
      · exact hb' rfl hcs
      · exact hb d ds rfl hcs
    refine ⟨[c] ++ t, rfl, fun r => ?_⟩
    rw [List.append_assoc, List.singleton_append, (plain_of_ne hq hne hc _).2, ht]
  | _ => simp at h

/-- The text in front is read as a value and passed over, whatever ends it. -/
def PieceText {α : Type} (read : List Char → Except TextError (α × List Char))
    (skip : List Char → Except TextError (List Char)) (t : List Char) (a : α) : Prop :=
  ∀ r, Ends r → read (t ++ r) = .ok (a, r) ∧ skip (t ++ r) = .ok r

end ZodGraph.Json
