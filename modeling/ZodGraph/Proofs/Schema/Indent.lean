import Mathlib.Data.List.Basic
import Mathlib.Tactic
import ZodGraph.Proofs.Schema.Fragment
import ZodGraph.Proofs.Schema.ReadBack

/-!
Indentation is a uniform shift. An expression that stands deeper has the same text, with more
spaces after each line feed and nothing else changed. No string brings a line feed of its own.
-/

namespace ZodGraph.Schema

/-! ### Line feeds -/

lemma newline_not_mem_stringLiteral (s : String) : '\n' ∉ (stringLiteral s).toList := by
  have hescaped : '\n' ∉ s.toList.flatMap escapeChar := by
    rw [List.mem_flatMap]
    rintro ⟨c, -, hc⟩
    unfold escapeChar at hc
    split at hc <;> grind
  simpa [toList_stringLiteral] using hescaped

lemma newline_not_mem_plainName {n : String} (h : plainName n = true) : '\n' ∉ n.toList :=
  fun hn => absurd (plainName_iff.1 h '\n' hn) (by decide)

lemma newline_not_mem_key (name : String) : '\n' ∉ (key name).toList := by
  rcases key_cases name with hkey | ⟨hkey, hplain, -⟩ <;> rw [hkey]
  · exact newline_not_mem_stringLiteral name
  · exact newline_not_mem_plainName hplain

lemma newline_not_mem_word {w : String} (h : w ∈ words) : '\n' ∉ w.toList := by
  have hwords : ∀ w ∈ words, '\n' ∉ w.toList := by decide +kernel
  exact hwords w h

lemma newline_not_mem_bare {v : Literal} (h : ∀ s, v ≠ .string s) :
    '\n' ∉ (literalText v).toList :=
  fun hn => absurd (isBareChar_literalText h '\n' hn) (by decide)

lemma newline_not_mem_indentation (l : Nat) : '\n' ∉ (indentation l).toList := by
  simp [indentation]

/-! ### Shifting -/

section replaceAll

variable {c : Char} {t : List Char}

lemma replaceAll_append (a b : List Char) :
    replaceAll c t (a ++ b) = replaceAll c t a ++ replaceAll c t b :=
  List.flatMap_append

lemma replaceAll_of_not_mem {a : List Char} (h : c ∉ a) : replaceAll c t a = a := by
  induction a with
  | nil => rfl
  | cons d a ih =>
    obtain ⟨hd, ha⟩ := not_or.1 (List.mem_cons.not.1 h)
    rw [replaceAll, List.flatMap_cons, if_neg (Ne.symm hd)]
    exact congrArg (d :: ·) (ih ha)

end replaceAll

/-- Puts the spaces of so many levels after each line feed. -/
def shifted (k : Nat) (t : List Char) : List Char :=
  replaceAll '\n' ('\n' :: List.replicate (2 * k) ' ') t

lemma shifted_of_not_mem {t : List Char} (h : '\n' ∉ t) (k : Nat) : t = shifted k t :=
  (replaceAll_of_not_mem h).symm

/-- The spaces at the start of a line are those of its level. -/
lemma shifted_line {t : List Char} (h : '\n' ∉ t) (i k : Nat) :
    '\n' :: ((indentation (i + k)).toList ++ t) =
      shifted k ('\n' :: ((indentation i).toList ++ t)) := by
  have hrest : '\n' ∉ (indentation i).toList ++ t := by
    rw [List.mem_append]
    exact not_or.2 ⟨newline_not_mem_indentation i, h⟩
  have hlevel : (indentation (i + k)).toList =
      List.replicate (2 * k) ' ' ++ (indentation i).toList := by
    simp only [indentation, String.toList_ofList, List.replicate_append_replicate]
    congr 1
    omega
  have hfeed : shifted k ('\n' :: ((indentation i).toList ++ t)) =
      '\n' :: List.replicate (2 * k) ' ' ++ replaceAll '\n' ('\n' :: List.replicate (2 * k) ' ')
        ((indentation i).toList ++ t) := by
    rw [shifted, replaceAll, List.flatMap_cons, if_pos rfl]
    rfl
  rw [hfeed, replaceAll_of_not_mem hrest, hlevel]
  simp

/-- A shift can be checked fragment by fragment. -/
lemma fragmentwise_shifted :
    Fragmentwise ('\n' ∉ ·.toList) fun T _ => ∀ i k, T (i + k) = shifted k (T i) where
  empty _ _ := rfl
  append hT hU i k := by simp only [hT i k, hU i k, shifted, replaceAll_append]
  deeper h i k := by rw [← h, Nat.add_right_comm]
  word h _ k := shifted_of_not_mem (newline_not_mem_word h) k
  name h _ k := shifted_of_not_mem h k
  string s _ k := shifted_of_not_mem (newline_not_mem_stringLiteral s) k
  bare h _ k := shifted_of_not_mem (by simpa using newline_not_mem_bare h) k
  field name i k := by
    have hline := shifted_line (newline_not_mem_key name) (i + 1) k
    rwa [Nat.add_right_comm] at hline
  close i k := shifted_line (by decide) i k
  optional _ k := shifted_of_not_mem (t := ".optional()".toList) (by decide) k

/-- The text without the spaces at the start of its lines, the first line apart. The mark tells
whether such spaces may come next. -/
def unindented : Bool → List Char → List Char
  | _, [] => []
  | start, c :: cs =>
    if start = true ∧ c = ' ' then unindented true cs else c :: unindented (c = '\n') cs

lemma unindented_spaces (n : Nat) (t : List Char) :
    unindented true (List.replicate n ' ' ++ t) = unindented true t := by
  induction n with
  | zero => rfl
  | succ n ih => rw [List.replicate_succ, List.cons_append, unindented, if_pos ⟨rfl, rfl⟩, ih]

/-- A shift changes nothing but spaces at the start of lines. -/
lemma unindented_shifted (k : Nat) (start : Bool) (t : List Char) :
    unindented start (shifted k t) = unindented start t := by
  induction t generalizing start with
  | nil => rfl
  | cons c t ih =>
    by_cases hc : c = '\n'
    · subst hc
      have hcons : shifted k ('\n' :: t) =
          '\n' :: (List.replicate (2 * k) ' ' ++ shifted k t) := rfl
      rw [hcons, unindented, if_neg (by simp), unindented, if_neg (by simp)]
      simp only [decide_true, unindented_spaces, ih]
    · have hcons : shifted k (c :: t) = c :: shifted k t := by
        rw [shifted, replaceAll, List.flatMap_cons, if_neg hc]
        rfl
      rw [hcons, unindented, unindented, ih, ih]

/-- **Indentation is a uniform shift**: if no name in an expression has a line feed, its text some
levels deeper is its text with the spaces of these levels after each line feed. So at any two
levels it is the same but for the spaces at the start of the lines after the first. -/
theorem Expr.text_shifts (e : Expr) (h : ∀ n, e.Names n → '\n' ∉ n.toList) :
    (∀ i k, (e.text (i + k)).toList =
      replaceAll '\n' ('\n' :: List.replicate (2 * k) ' ') (e.text i).toList) ∧
    ∀ i j, unindented false (e.text i).toList = unindented false (e.text j).toList := by
  have hshift : ∀ i k, (e.text (i + k)).toList = shifted k (e.text i).toList :=
    fragmentwise_shifted.text e h
  have hzero : ∀ i, unindented false (e.text i).toList = unindented false (e.text 0).toList := by
    intro i
    have hi := hshift 0 i
    rw [Nat.zero_add] at hi
    rw [hi, unindented_shifted]
  exact ⟨hshift, fun i j => by rw [hzero i, hzero j]⟩

/-- A model with objects in an array and in the catchall, and line feeds in a key and a value. -/
def page : Model where
  name := "Page"
  properties := [⟨"a\nb", .array (.object [⟨"next", .model "Page" none, true⟩]), false⟩]
  indexer := some ⟨.string, .object [⟨"c", .literal (.string "\n"), false⟩]⟩

def pageExpr : Expr := page.expr { models := ["Page"] }

theorem Expr.text_shifts_page :
    pageExpr = .object [⟨"a\nb", .array (.object [⟨"next", .lazy "Page", true⟩] none), false⟩]
      (some (.object [⟨"c", .literal (.string "\n"), false⟩] none)) ∧
    (pageExpr.text 3).toList =
      replaceAll '\n' ('\n' :: List.replicate 6 ' ') (pageExpr.text 0).toList ∧
    unindented false (pageExpr.text 1).toList = unindented false (pageExpr.text 3).toList := by
  have hnames : ∀ n, pageExpr.Names n → '\n' ∉ n.toList := by
    intro n hn
    rcases Model.names_expr hn with rfl | hn | hn
    · decide
    · obtain rfl : n = "Page" := by simpa using hn
      decide
    · cases hn
  obtain ⟨hshift, hsame⟩ := Expr.text_shifts pageExpr hnames
  exact ⟨rfl, hshift 0 3, hsame 1 3⟩

end ZodGraph.Schema
