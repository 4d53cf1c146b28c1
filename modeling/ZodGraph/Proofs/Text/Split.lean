import Mathlib.Data.List.Basic
import Mathlib.Tactic
import ZodGraph.Proofs.Text.Occurrence
import ZodGraph.Text

/-!
Cutting a text at a separator, and putting the pieces together again.
-/

namespace ZodGraph.Text

variable {sep : Char} {cs : List Char}

lemma splitChars_eq_splitOn (sep : Char) (cs : List Char) : splitChars sep cs = cs.splitOn sep := by
  induction cs with
  | nil => rw [splitChars, List.splitOn_nil]
  | cons c cs ih =>
    rw [splitChars, ih, List.splitOn_cons_eq_if_modifyHead]
    by_cases h : c = sep
    · simp [h]
    · rcases hpieces : cs.splitOn sep with _ | ⟨p, ps⟩
      · exact absurd hpieces (List.splitOn_ne_nil sep cs)
      · simp [h]

lemma splitChars_ne_nil (sep : Char) (cs : List Char) : splitChars sep cs ≠ [] := by
  rw [splitChars_eq_splitOn]
  exact List.splitOn_ne_nil sep cs

/-- A separator divides the pieces in front of it from those behind it. -/
lemma splitChars_append (sep : Char) (as bs : List Char) :
    splitChars sep (as ++ sep :: bs) = splitChars sep as ++ splitChars sep bs := by
  simp only [splitChars_eq_splitOn, List.splitOn_append_cons_self]

lemma splitChars_of_not_mem (h : sep ∉ cs) : splitChars sep cs = [cs] := by
  rw [splitChars_eq_splitOn, List.splitOn_eq_singleton h]

lemma not_mem_of_mem_splitChars {p : List Char} (h : p ∈ splitChars sep cs) : sep ∉ p := by
  induction cs generalizing p with
  | nil =>
    obtain rfl : p = [] := by simpa [splitChars] using h
    simp
  | cons c cs ih =>
    rw [splitChars] at h
    split_ifs at h with hc
    · rcases List.mem_cons.1 h with rfl | h
      · simp
      · exact ih h
    · rcases hpieces : splitChars sep cs with _ | ⟨q, qs⟩
      · exact absurd hpieces (splitChars_ne_nil sep cs)
      · rw [hpieces] at h ih
        rcases List.mem_cons.1 h with rfl | h
        · rw [List.mem_cons, not_or]
          exact ⟨Ne.symm hc, ih List.mem_cons_self⟩
        · exact ih (List.mem_cons_of_mem _ h)

/-- The pieces with separators between them are the text. -/
lemma intercalate_splitChars (sep : Char) (cs : List Char) :
    [sep].intercalate (splitChars sep cs) = cs := by
  rw [splitChars_eq_splitOn, List.intercalate_splitOn]

/-- Text without a separator belongs to the first piece of what follows it. -/
lemma splitChars_append_of_not_mem {as : List Char} (h : sep ∉ as) (bs : List Char) :
    splitChars sep (as ++ bs) = (splitChars sep bs).modifyHead (as ++ ·) := by
  induction as with
  | nil => cases hbs : splitChars sep bs <;> simp [hbs]
  | cons a as ih =>
    obtain ⟨ha, has⟩ := not_or.1 (List.mem_cons.not.1 h)
    rw [List.cons_append, splitChars, if_neg (Ne.symm ha), ih has]
    rcases hbs : splitChars sep bs with _ | ⟨p, ps⟩
    · exact absurd hbs (splitChars_ne_nil sep bs)
    · rfl

/-- The first piece begins as the text does. -/
lemma head?_first {p : List Char} {ps : List (List Char)} {c : Char}
    (hsplit : splitChars sep cs = p :: ps) (h : p.head? = some c) : cs.head? = some c := by
  have htext := intercalate_splitChars sep cs
  obtain ⟨r, rfl⟩ := List.head?_eq_some_iff.1 h
  rw [hsplit] at htext
  cases ps <;> simp [← htext]

/-- Where no separator is followed by some character, no piece but the first begins with it. -/
lemma head?_ne_of_apart {c : Char} (h : Apart [sep, c] cs) :
    ∀ p ∈ (splitChars sep cs).tail, p.head? ≠ some c := by
  induction cs with
  | nil => simp [splitChars]
  | cons d cs ih =>
    obtain ⟨⟨hword, -⟩, hcs⟩ := apart_cons.1 h
    rcases hsplit : splitChars sep cs with _ | ⟨p, ps⟩
    · exact absurd hsplit (splitChars_ne_nil sep cs)
    · have hrest : ∀ q ∈ ps, q.head? ≠ some c := by simpa [hsplit] using ih hcs
      rw [splitChars, hsplit]
      split_ifs with hd
      · refine List.forall_mem_cons.2 ⟨fun hp => ?_, hrest⟩
        obtain ⟨r, rfl⟩ := List.head?_eq_some_iff.1 (head?_first hsplit hp)
        exact hword (hd ▸ List.prefix_append [d, c] r)
      · exact hrest

/-! ### Texts of pieces -/

variable {s : String}

lemma split_ne_nil (sep : Char) (text : String) : split sep text ≠ [] := by
  simpa [split] using splitChars_ne_nil sep text.toList

lemma split_of_not_mem {text : String} (h : sep ∉ text.toList) : split sep text = [text] := by
  rw [split, splitChars_of_not_mem h]
  simp

lemma not_mem_of_mem_split {text p : String} (h : p ∈ split sep text) : sep ∉ p.toList := by
  obtain ⟨cs, hcs, rfl⟩ := List.mem_map.1 h
  simpa using not_mem_of_mem_splitChars hcs

lemma split_append_of_not_mem {a b p : String} {ps : List String} (ha : sep ∉ a.toList)
    (hb : split sep b = p :: ps) : split sep (a ++ b) = (a ++ p) :: ps := by
  rw [split] at hb ⊢
  rw [String.toList_append, splitChars_append_of_not_mem ha]
  obtain ⟨q, qs, hpieces, rfl, rfl⟩ := List.map_eq_cons_iff.1 hb
  simp [hpieces, String.ofList_append]

lemma intercalate_split (hs : s.toList = [sep]) (text : String) :
    s.intercalate (split sep text) = text := by
  rw [← String.toList_inj, String.toList_intercalate, hs, split, List.map_map]
  have hid : String.toList ∘ String.ofList = id := funext fun _ => String.toList_ofList
  rw [hid, List.map_id, intercalate_splitChars]

lemma split_intercalate (hs : s.toList = [sep]) {ps : List String} (hne : ps ≠ []) :
    split sep (s.intercalate ps) = ps.flatMap (split sep) := by
  induction ps with
  | nil => exact absurd rfl hne
  | cons p ps ih =>
    cases ps with
    | nil => simp
    | cons q ps =>
      have htext : (s.intercalate (p :: q :: ps)).toList =
          p.toList ++ sep :: (s.intercalate (q :: ps)).toList := by
        simp [String.intercalate_cons_cons, hs]
      rw [List.flatMap_cons, ← ih (List.cons_ne_nil q ps), split, htext, splitChars_append,
        List.map_append]
      rfl

end ZodGraph.Text
