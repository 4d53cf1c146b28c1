import Mathlib.Data.List.Basic
import Mathlib.Tactic
import ZodGraph.Schema.Text

/-!
The small pieces of source text: names, numbers, string literals, keys and comments. Each can be
told from the text that follows it, whatever is written in it.
-/

namespace ZodGraph.Schema

/-- A run of characters of one class ends where a character of another class begins. -/
lemma append_inj_of_class {p : Char → Prop} {a b x y : List Char} (ha : ∀ c ∈ a, p c)
    (hb : ∀ c ∈ b, p c) (hx : ∀ c ∈ x.head?, ¬ p c) (hy : ∀ c ∈ y.head?, ¬ p c)
    (h : a ++ x = b ++ y) : a = b ∧ x = y := by
  induction a generalizing b with
  | nil =>
    cases b with
    | nil => exact ⟨rfl, h⟩
    | cons d b =>
      rw [List.nil_append] at h
      exact absurd (hb d (by simp)) (hx d (by simp [h]))
  | cons c a ih =>
    cases b with
    | nil =>
      rw [List.nil_append] at h
      exact absurd (ha c (by simp)) (hy c (by simp [← h]))
    | cons d b =>
      obtain ⟨rfl, hab⟩ : c = d ∧ a ++ x = b ++ y := by simpa using h
      have hrest := ih (fun e he => ha e (by simp [he])) (fun e he => hb e (by simp [he])) hab
      exact ⟨by rw [hrest.1], hrest.2⟩

/-! ### Names -/

/-- A name of letters, digits, `_` and `$` only. -/
def plainName (name : String) : Bool := name.toList.all isNameChar

lemma plainName_iff {name : String} :
    plainName name = true ↔ ∀ c ∈ name.toList, isNameChar c = true := by
  simp [plainName]

/-- The text goes on with something that is no part of a name. -/
def EndsName (r : List Char) : Prop := ∀ c ∈ r.head?, ¬ isNameChar c = true

lemma endsName_cons {c : Char} {r : List Char} (h : isNameChar c = false) : EndsName (c :: r) := by
  simp [EndsName, h]

lemma endsName_append {t r : List Char} (h : t.head?.any (!isNameChar ·) = true) :
    EndsName (t ++ r) := by
  cases t with
  | nil => cases h
  | cons c t => exact endsName_cons (by simpa using h)

lemma name_inj {a b : String} {r r' : List Char} (ha : plainName a = true)
    (hb : plainName b = true) (hr : EndsName r) (hr' : EndsName r')
    (h : a.toList ++ r = b.toList ++ r') : a = b ∧ r = r' := by
  obtain ⟨hab, hrr⟩ := append_inj_of_class (plainName_iff.1 ha) (plainName_iff.1 hb) hr hr' h
  exact ⟨String.toList_inj.1 hab, hrr⟩

lemma plainName_identifier {name : String} (h : plainName name = true) :
    plainName (identifier name) = true := by
  rw [plainName_iff] at h ⊢
  intro c hc
  rw [identifier, String.toList_append] at hc
  rcases List.mem_append.1 hc with hc | hc
  · exact h c hc
  · exact plainName_iff.1 (rfl : plainName "Schema" = true) c hc

lemma identifier_inj {a b : String} {r r' : List Char} (ha : plainName a = true)
    (hb : plainName b = true) (hr : EndsName r) (hr' : EndsName r')
    (h : (identifier a).toList ++ r = (identifier b).toList ++ r') : a = b ∧ r = r' := by
  obtain ⟨hab, hrr⟩ := name_inj (plainName_identifier ha) (plainName_identifier hb) hr hr' h
  refine ⟨?_, hrr⟩
  have hlist := congrArg String.toList hab
  rw [identifier, identifier, String.toList_append, String.toList_append] at hlist
  exact String.toList_inj.1 (List.append_cancel_right hlist)

/-! ### Numbers -/

lemma toDigits_inj {m n : Nat} (h : Nat.toDigits 10 m = Nat.toDigits 10 n) : m = n := by
  rw [← Nat.ofDigitChars_ten_toDigits (n := m), h, Nat.ofDigitChars_ten_toDigits]

/-- The characters of a number. -/
def isNumberChar (c : Char) : Bool := c.isDigit || c = '-'

lemma isNumberChar_ne {c : Char} (h : isNumberChar c = true) : c ≠ 't' ∧ c ≠ 'f' ∧ c ≠ '"' := by
  refine ⟨?_, ?_, ?_⟩ <;> rintro rfl <;> cases h

lemma toList_int (n : Int) : (toString n).toList =
    if 0 ≤ n then Nat.toDigits 10 n.toNat else '-' :: Nat.toDigits 10 (-n).toNat := by
  rw [Int.toString_eq_repr, Int.repr_eq_if]
  split <;> simp

lemma isNumberChar_int (n : Int) : ∀ c ∈ (toString n).toList, isNumberChar c = true := by
  have hdigit : ∀ (m : Nat) (c : Char), c ∈ Nat.toDigits 10 m → isNumberChar c = true := by
    intro m c hc
    simp [isNumberChar, Nat.isDigit_of_mem_toDigits (by omega) (by omega) hc]
  intro c hc
  rw [toList_int] at hc
  split at hc
  · exact hdigit _ c hc
  · rcases List.mem_cons.1 hc with rfl | hc
    · rfl
    · exact hdigit _ c hc

lemma exists_head_int (n : Int) :
    ∃ c cs, (toString n).toList = c :: cs ∧ isNumberChar c = true := by
  cases hn : (toString n).toList with
  | nil =>
    rw [toList_int] at hn
    split at hn
    · exact absurd hn Nat.toDigits_ne_nil
    · cases hn
  | cons c cs => exact ⟨c, cs, rfl, isNumberChar_int n c (hn ▸ List.mem_cons_self)⟩

lemma minus_not_mem_toDigits (m : Nat) : '-' ∉ Nat.toDigits 10 m := fun h =>
  absurd (Nat.isDigit_of_mem_toDigits (by omega) (by omega) h) (by decide)

lemma toString_int_inj {m n : Int} (h : toString m = toString n) : m = n := by
  have hlist := congrArg String.toList h
  rw [toList_int, toList_int] at hlist
  split at hlist <;> split at hlist
  · have := toDigits_inj hlist
    omega
  · exact absurd (hlist ▸ List.mem_cons_self) (minus_not_mem_toDigits _)
  · exact absurd (hlist.symm ▸ List.mem_cons_self) (minus_not_mem_toDigits _)
  · have := toDigits_inj (List.cons.inj hlist).2
    omega

lemma int_inj {m n : Int} {r r' : List Char}
    (h : (toString m).toList ++ ')' :: r = (toString n).toList ++ ')' :: r') :
    m = n ∧ r = r' := by
  obtain ⟨hmn, hrr⟩ := append_inj_of_class (p := fun c => isNumberChar c = true)
    (isNumberChar_int m) (isNumberChar_int n) (by simp; decide) (by simp; decide) h
  exact ⟨toString_int_inj (String.toList_inj.1 hmn), (List.cons.inj hrr).2⟩

/-! ### String literals and keys -/

/-- Each character inside the quotes can be told from the next. -/
lemma escapeChar_inj {c d : Char} {r r' : List Char}
    (h : escapeChar c ++ r = escapeChar d ++ r') : c = d ∧ r = r' := by
  unfold escapeChar at h
  split at h <;> split at h <;> grind

lemma escapeChar_ne_quote (c : Char) (r s : List Char) : escapeChar c ++ r ≠ '"' :: s := by
  unfold escapeChar
  split <;> simp_all

lemma escaped_inj {cs ds r r' : List Char}
    (h : cs.flatMap escapeChar ++ '"' :: r = ds.flatMap escapeChar ++ '"' :: r') :
    cs = ds ∧ r = r' := by
  induction cs generalizing ds with
  | nil =>
    cases ds with
    | nil => simpa using h
    | cons d ds =>
      rw [List.flatMap_cons, List.append_assoc] at h
      exact absurd h.symm (escapeChar_ne_quote _ _ _)
  | cons c cs ih =>
    cases ds with
    | nil =>
      rw [List.flatMap_cons, List.append_assoc] at h
      exact absurd h (escapeChar_ne_quote _ _ _)
    | cons d ds =>
      rw [List.flatMap_cons, List.flatMap_cons, List.append_assoc, List.append_assoc] at h
      obtain ⟨rfl, hrest⟩ := escapeChar_inj h
      obtain ⟨rfl, rfl⟩ := ih hrest
      exact ⟨rfl, rfl⟩

lemma toList_stringLiteral (s : String) :
    (stringLiteral s).toList = '"' :: s.toList.flatMap escapeChar ++ ['"'] := by
  simp [stringLiteral, escape]

/-- A string literal ends where it should, whatever the string. -/
lemma stringLiteral_inj {s t : String} {r r' : List Char}
    (h : (stringLiteral s).toList ++ r = (stringLiteral t).toList ++ r') : s = t ∧ r = r' := by
  rw [toList_stringLiteral, toList_stringLiteral] at h
  simp only [List.cons_append, List.append_assoc, List.nil_append, List.cons.injEq, true_and] at h
  obtain ⟨hst, hrr⟩ := escaped_inj h
  exact ⟨String.toList_inj.1 hst, hrr⟩

lemma isNameChar_of_isNameStart {c : Char} (h : isNameStart c = true) : isNameChar c = true := by
  simp only [isNameStart, isNameChar, Char.isAlphanum, Bool.or_eq_true, decide_eq_true_eq] at h ⊢
  tauto

lemma plainName_of_bare {name : String} (h : needsQuotes name = false) :
    plainName name = true ∧ ∃ c cs, name.toList = c :: cs := by
  rw [needsQuotes] at h
  split at h
  · cases h
  · rename_i c cs hname
    simp only [Bool.or_eq_false_iff, Bool.not_eq_false'] at h
    refine ⟨?_, c, cs, hname⟩
    rw [plainName, hname, List.all_cons, isNameChar_of_isNameStart h.1, h.2]
    rfl

/-- A bare key does not read as a quoted one. -/
lemma bare_ne_quoted {name t : String} {r r' : List Char} (h : needsQuotes name = false) :
    name.toList ++ r ≠ (stringLiteral t).toList ++ r' := by
  obtain ⟨hplain, c, cs, hname⟩ := plainName_of_bare h
  intro heq
  rw [toList_stringLiteral, hname] at heq
  obtain rfl : c = '"' := (List.cons.inj heq).1
  exact absurd (plainName_iff.1 hplain '"' (by simp [hname])) (by decide)

/-- Keys are told apart by their text, quoted or not. -/
lemma key_inj {a b : String} {r r' : List Char} (hr : EndsName r) (hr' : EndsName r')
    (h : (key a).toList ++ r = (key b).toList ++ r') : a = b ∧ r = r' := by
  unfold key at h
  split at h <;> split at h <;> rename_i ha hb
  · exact stringLiteral_inj h
  · exact absurd h.symm (bare_ne_quoted (by simpa using hb))
  · exact absurd h (bare_ne_quoted (by simpa using ha))
  · simp only [Bool.not_eq_true] at ha hb
    exact name_inj (plainName_of_bare ha).1 (plainName_of_bare hb).1 hr hr' h

/-! ### Lists -/

/-- What follows an item is the next item or what follows the list. -/
lemma stop_flatMap {α β : Type} {T : α → List β} {Stop : List β → Prop}
    (hstop : ∀ x s, Stop (T x ++ s)) (xs : List α) {s : List β} (hs : Stop s) :
    Stop (xs.flatMap T ++ s) := by
  cases xs with
  | nil => exact hs
  | cons x xs =>
    rw [List.flatMap_cons, List.append_assoc]
    exact hstop _ _

/-- Lists are told apart by their text if their items are, in any text that may follow an item,
and what follows the list does not read as one more item. -/
lemma flatMap_inj {α β : Type} {T : α → List β} {xs ys : List α} {r r' : List β}
    (Stop : List β → Prop)
    (hT : ∀ x ∈ xs, ∀ y ∈ ys, ∀ s s', Stop s → Stop s' → T x ++ s = T y ++ s' → x = y ∧ s = s')
    (hstop : ∀ x s, Stop (T x ++ s)) (hr : Stop r) (hr' : Stop r')
    (hend : ∀ x s, r ≠ T x ++ s) (hend' : ∀ x s, r' ≠ T x ++ s)
    (h : xs.flatMap T ++ r = ys.flatMap T ++ r') : xs = ys ∧ r = r' := by
  induction xs generalizing ys with
  | nil =>
    cases ys with
    | nil => exact ⟨rfl, h⟩
    | cons y ys =>
      rw [List.flatMap_cons, List.append_assoc] at h
      exact absurd h (hend _ _)
  | cons x xs ih =>
    cases ys with
    | nil =>
      rw [List.flatMap_cons, List.append_assoc] at h
      exact absurd h.symm (hend' _ _)
    | cons y ys =>
      rw [List.flatMap_cons, List.flatMap_cons, List.append_assoc, List.append_assoc] at h
      obtain ⟨rfl, hrest⟩ := hT x (by simp) y (by simp) _ _ (stop_flatMap hstop xs hr)
        (stop_flatMap hstop ys hr') h
      obtain ⟨rfl, rfl⟩ := ih (fun a ha b hb => hT a (by simp [ha]) b (by simp [hb])) hrest
      exact ⟨rfl, rfl⟩

lemma toList_intercalate_cons (sep s : String) (ss : List String) :
    (sep.intercalate (s :: ss)).toList =
      s.toList ++ ss.flatMap fun t => sep.toList ++ t.toList := by
  induction ss generalizing s with
  | nil => simp
  | cons t ss ih =>
    rw [String.intercalate_cons_cons, String.toList_append, String.toList_append, ih]
    simp

/-! ### Comments -/

/-- What follows the first end of a comment. -/
def afterComment : List Char → List Char
  | '*' :: '/' :: cs => cs
  | _ :: cs => afterComment cs
  | [] => []

lemma afterComment_end (r : List Char) : afterComment ('*' :: '/' :: r) = r := rfl

lemma afterComment_cons {c : Char} {r : List Char} (h : ∀ s, c = '*' → r ≠ '/' :: s) :
    afterComment (c :: r) = afterComment r := by
  rw [afterComment.eq_def]
  grind

lemma afterComment_append {t : List Char} (r : List Char) (h : '*' ∉ t) :
    afterComment (t ++ r) = afterComment r := by
  induction t with
  | nil => rfl
  | cons c t ih =>
    rw [List.mem_cons, not_or] at h
    rw [List.cons_append, afterComment_cons (fun _ hc => absurd hc.symm h.1), ih h.2]

lemma head?_guardComment (cs : List Char) : (guardComment cs).head? = cs.head? := by
  fun_cases guardComment cs <;> rfl

/-- Guarded text does not end the comment it stands in. -/
lemma afterComment_guard (cs r : List Char) :
    afterComment (guardComment cs ++ '\n' :: r) = afterComment r := by
  fun_induction guardComment cs with
  | case1 cs ih => simpa [afterComment_cons] using ih
  | case2 c cs hc ih =>
    rw [List.cons_append, afterComment_cons, ih]
    rintro s rfl hslash
    -- a slash after the star would have been guarded
    have hhead : (guardComment cs ++ '\n' :: r).head? = some '/' := by rw [hslash]; rfl
    rw [List.head?_append, head?_guardComment] at hhead
    cases cs with
    | nil => simp at hhead
    | cons d cs => exact hc cs rfl (by simpa using hhead)
  | case3 => simp [afterComment_cons]

end ZodGraph.Schema
