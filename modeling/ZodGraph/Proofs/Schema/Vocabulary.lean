import Mathlib.Data.List.Basic
import Mathlib.Tactic
import ZodGraph.Proofs.Schema.Lexeme
import ZodGraph.Proofs.Schema.Mention
import ZodGraph.Proofs.Schema.WellBuilt

/-!
What stands in the text of a validator besides its fixed words and its strings: names, which are
those in scope and the one class that is known, and the digits, signs and letters of numbers and
truth values.
-/

namespace ZodGraph

open Schema (Expr)

/-! ### Names -/

namespace Schema.Expr

/-- A class or a schema that the expression refers to, at any depth. -/
def Names (e : Expr) (n : String) : Prop :=
  Within (.instanceOf n) e ∨ Within (.ref n) e ∨ Within (.lazy n) e

lemma Names.part {p e : Expr} {n : String} (mem : p ∈ e.parts) (h : p.Names n) : e.Names n := by
  rcases h with h | h | h
  · exact Or.inl (.part mem h)
  · exact Or.inr (Or.inl (.part mem h))
  · exact Or.inr (Or.inr (.part mem h))

lemma mentions_subset_mentionsAll {p : Expr} {es : List Expr} (h : p ∈ es) :
    p.mentions ⊆ mentionsAll es := by
  induction es with
  | nil => cases h
  | cons e es ih =>
    rcases List.mem_cons.1 h with rfl | h
    · exact List.subset_append_left _ _
    · exact List.subset_append_of_subset_right _ (ih h)

lemma mentions_subset_fieldMentions {f : Field} {fs : List Field} (h : f ∈ fs) :
    f.expr.mentions ⊆ fieldMentions fs := by
  induction fs with
  | nil => cases h
  | cons g fs ih =>
    rcases List.mem_cons.1 h with rfl | h
    · exact List.subset_append_left _ _
    · exact List.subset_append_of_subset_right _ (ih h)

lemma mentions_part {p e : Expr} (h : p ∈ e.parts) : p.mentions ⊆ e.mentions := by
  cases e with
  | array e => simp_all [parts, mentions]
  | record k v =>
    simp only [parts, List.mem_cons, List.not_mem_nil, or_false] at h
    rcases h with rfl | rfl
    · exact List.subset_append_left _ _
    · exact List.subset_append_right _ _
  | union es => exact mentions_subset_mentionsAll h
  | object fields catchall =>
    rcases List.mem_append.1 h with h | h
    · obtain ⟨f, hf, rfl⟩ := List.mem_map.1 h
      exact List.subset_append_of_subset_left _ (mentions_subset_fieldMentions hf)
    · obtain rfl : catchall = some p := by simpa using h
      exact List.subset_append_right _ _
  | _ => cases h

lemma Within.mentions_subset {a e : Expr} (h : a.Within e) : a.mentions ⊆ e.mentions := by
  induction h with
  | self => exact List.Subset.refl _
  | part mem _ ih => exact List.Subset.trans ih (mentions_part mem)

/-- The names in a sound expression are those it mentions, and the class that is known. -/
lemma Sound.names {e : Expr} {n : String} (he : e.Sound) (h : e.Names n) :
    n = "Blob" ∨ ∃ x ∈ e.mentions, x.name = n := by
  rcases h with h | h | h
  · exact Or.inl (he _ h)
  · exact Or.inr ⟨.direct n, h.mentions_subset (by simp [mentions]), rfl⟩
  · exact Or.inr ⟨.deferred n, h.mentions_subset (by simp [mentions]), rfl⟩

end Schema.Expr

/-- A validator names what is in scope and the class that is known, nothing else. -/
lemma Model.names_expr {scope : Scope} {m : Model} {n : String} (h : (m.expr scope).Names n) :
    n = "Blob" ∨ n ∈ scope.models ∨ n ∈ scope.enums := by
  rcases (m.sound_expr scope).1.names h with rfl | ⟨x, hx, rfl⟩
  · exact Or.inl rfl
  · right
    have hfits := (Model.mention_expr hx).2
    cases x with
    | direct n => exact hfits.symm.imp And.left id
    | deferred n => exact Or.inl hfits.1

/-- A key is a string or a name that is plain and not empty. -/
lemma Schema.key_cases (name : String) : key name = stringLiteral name ∨
    key name = name ∧ plainName name = true ∧ name.toList ≠ [] := by
  unfold key
  split_ifs with hquotes
  · exact Or.inl rfl
  · obtain ⟨hplain, c, cs, hname⟩ := plainName_of_bare (by simpa using hquotes)
    exact Or.inr ⟨rfl, hplain, by simp [hname]⟩

/-! ### Numbers and truth values -/

/-- The characters of numbers and truth values. -/
def isBareChar (c : Char) : Bool := c.isDigit || "-.truefalsNaNinf".toList.contains c

lemma isBareChar_of_isDigit {c : Char} (h : c.isDigit = true) : isBareChar c = true := by
  simp [isBareChar, h]

lemma Double.isDigit_shortest (tie : Tie) (x : Double) :
    ∀ c ∈ (x.shortest tie).digits, c.isDigit = true := by
  intro c hc
  unfold Double.shortest at hc
  split at hc
  · obtain rfl : c = '0' := by simpa using hc
    rfl
  · simp only [List.mem_reverse] at hc
    have hmem := List.mem_reverse.1 ((List.dropWhile_sublist _).mem hc)
    exact Nat.isDigit_of_mem_toDigits (by omega) (by omega) hmem

lemma Decimal.isBareChar_positional {d : Decimal} (h : ∀ c ∈ d.digits, c.isDigit = true) :
    ∀ c ∈ d.positional, isBareChar c = true := by
  have hzero : isBareChar '0' = true := by decide
  have hpoint : isBareChar '.' = true := by decide
  have hdigit : ∀ c ∈ d.digits, isBareChar c = true := fun c hc => isBareChar_of_isDigit (h c hc)
  intro c hc
  simp only [Decimal.positional] at hc
  split_ifs at hc
  · simp only [List.cons_append, List.mem_cons, List.mem_append, List.mem_replicate] at hc
    rcases hc with rfl | rfl | ⟨-, rfl⟩ | hc
    · exact hzero
    · exact hpoint
    · exact hzero
    · exact hdigit c hc
  · simp only [List.mem_append, List.mem_replicate] at hc
    rcases hc with hc | ⟨-, rfl⟩
    · exact hdigit c hc
    · exact hzero
  · simp only [List.mem_append, List.mem_cons] at hc
    rcases hc with hc | rfl | hc
    · exact hdigit c (List.mem_of_mem_take hc)
    · exact hpoint
    · exact hdigit c (List.mem_of_mem_drop hc)

lemma Double.isBareChar_toText (x : Double) : ∀ c ∈ x.toText.toList, isBareChar c = true := by
  obtain ⟨body, hbody, htext⟩ : ∃ body : String, (∀ c ∈ body.toList, isBareChar c = true) ∧
      x.toText = if x.isNaN then "NaN" else if x.isNegative then "-" ++ body else body := by
    refine ⟨if x.isFinite then String.ofList (x.shortest .up).positional else "inf", ?_, rfl⟩
    split
    · rw [String.toList_ofList]
      exact Decimal.isBareChar_positional (x.isDigit_shortest .up)
    · exact List.all_eq_true.1 rfl
  rw [htext]
  split_ifs
  · exact List.all_eq_true.1 rfl
  · rw [String.toList_append]
    exact List.forall_mem_append.2 ⟨List.all_eq_true.1 rfl, hbody⟩
  · exact hbody

/-- A literal that is no string is written in few characters. -/
lemma Schema.isBareChar_literalText {v : Literal} (h : ∀ s, v ≠ .string s) :
    ∀ c ∈ (literalText v).toList, isBareChar c = true := by
  cases v with
  | bool b => cases b <;> exact List.all_eq_true.1 rfl
  | int n =>
    intro c hc
    have hnumber := isNumberChar_int n c hc
    simp only [isNumberChar, Bool.or_eq_true, decide_eq_true_eq] at hnumber
    rcases hnumber with hdigit | rfl
    · exact isBareChar_of_isDigit hdigit
    · decide
  | number x => exact x.isBareChar_toText
  | string s => exact absurd rfl (h s)

end ZodGraph
