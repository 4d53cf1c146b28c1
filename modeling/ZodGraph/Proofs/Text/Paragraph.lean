import Mathlib.Data.List.Basic
import Mathlib.Tactic
import ZodGraph.Proofs.Text.Occurrence

/-!
Texts made of paragraphs with a blank line between them. If no paragraph has a blank line of its
own, cutting the text at its blank lines gives the paragraphs.
-/

namespace ZodGraph.Text

/-- Cuts a text at its blank lines. Each part keeps the line feed at its end. -/
def paragraphs : List Char → List (List Char)
  | '\n' :: '\n' :: cs => ['\n'] :: paragraphs cs
  | c :: cs => (paragraphs cs).modifyHead (c :: ·)
  | [] => [[]]

example : paragraphs "a\nb\n\nc\n".toList = ["a\nb\n".toList, "c\n".toList] := by decide

lemma paragraphs_cons {c : Char} {r : List Char} (h : ¬ ['\n', '\n'] <+: c :: r) :
    paragraphs (c :: r) = (paragraphs r).modifyHead (c :: ·) := by
  rw [paragraphs]
  rintro s rfl rfl
  exact h (List.prefix_append ['\n', '\n'] s)

/-- The text begins with a line that is not blank. -/
def Begins (t : List Char) : Prop := ∃ c r, t = c :: r ∧ c ≠ '\n'

/-- One or more lines, none of them blank. -/
def IsParagraph (t : List Char) : Prop :=
  ∃ body, t = body ++ ['\n'] ∧ Begins body ∧ Apart ['\n', '\n'] body

lemma Begins.append {a : List Char} (h : Begins a) (b : List Char) : Begins (a ++ b) := by
  obtain ⟨c, r, rfl, hc⟩ := h
  exact ⟨c, r ++ b, rfl, hc⟩

lemma IsParagraph.begins {t : List Char} (h : IsParagraph t) : Begins t := by
  obtain ⟨body, rfl, hbegins, -⟩ := h
  exact hbegins.append _

/-- Text without a blank line stays in one part with what follows it. -/
lemma paragraphs_append {a : List Char} (h : Apart ['\n', '\n'] a) (r : List Char) :
    paragraphs (a ++ r) = (paragraphs r).modifyHead (a ++ ·) := by
  induction a with
  | nil => cases hr : paragraphs r <;> simp [hr]
  | cons c a ih =>
    have hc : ¬ ['\n', '\n'] <+: c :: (a ++ r) := h.not_prefix (List.cons_ne_nil c a) r
    rw [List.cons_append, paragraphs_cons hc, ih (apart_cons.1 h).2, List.modifyHead_modifyHead]
    rfl

/-- The text is made of sections with a blank line between them, and has no other. -/
structure LaidOut (sections : List (List Char)) (text : List Char) : Prop where
  /-- The text ends with one line feed. -/
  ends : ['\n'] <:+ text ∧ ¬ ['\n', '\n'] <:+ text
  /-- No two blank lines follow one another. -/
  single : ¬ ['\n', '\n', '\n'] <:+: text
  blank : (occurrences ['\n', '\n'] text).length = sections.length - 1
  cut : paragraphs text = sections

lemma IsParagraph.laidOut {t : List Char} (h : IsParagraph t) : LaidOut [t] t := by
  obtain ⟨body, rfl, -, hbody⟩ := h
  refine ⟨⟨List.suffix_append _ _, ?_⟩, ?_, ?_, ?_⟩
  · -- the line feed before the last one would be the end of the body
    rintro ⟨front, hfront⟩
    obtain rfl : body = front ++ ['\n'] := by
      have happ : body ++ ['\n'] = (front ++ ['\n']) ++ ['\n'] := by simpa using hfront.symm
      exact List.append_cancel_right happ
    exact (hbody ['\n'] (by simp) (by simp)).2 (by decide)
  · have hnone := (hbody.longer ['\n']).occurrences_append ['\n']
    exact occurrences_eq_nil_iff.1 hnone
  · rw [hbody.occurrences_append]
    rfl
  · rw [paragraphs_append hbody]
    rfl

/-- One more section in front. -/
lemma LaidOut.cons {s t : List Char} {ss : List (List Char)} (h : LaidOut ss t)
    (hs : IsParagraph s) (hne : ss ≠ []) (ht : Begins t) : LaidOut (s :: ss) (s ++ '\n' :: t) := by
  obtain ⟨body, rfl, -, hbody⟩ := hs
  obtain ⟨c, r, rfl, hc⟩ := ht
  have htext : body ++ ['\n'] ++ '\n' :: c :: r = body ++ '\n' :: '\n' :: c :: r := by simp
  have htail : c :: r <:+ body ++ '\n' :: '\n' :: c :: r := ⟨body ++ ['\n', '\n'], by simp⟩
  rw [htext]
  refine ⟨⟨h.ends.1.trans htail, fun htwo => ?_⟩, ?_, ?_, ?_⟩
  · -- the last two characters belong to the rest, which has at least two
    have hlength : 2 ≤ (c :: r).length := by
      obtain ⟨front, hfront⟩ := h.ends.1
      rcases front with _ | ⟨d, front⟩
      · exact absurd (List.cons.inj hfront).1.symm hc
      · simp [← hfront]
    exact h.ends.2 (List.suffix_of_suffix_length_le htwo htail hlength)
  · have hthree : Apart ['\n', '\n', '\n'] body := hbody.longer ['\n']
    have hrest := occurrences_eq_nil_iff.2 h.single
    rw [← occurrences_eq_nil_iff, hthree.occurrences_append]
    simpa [occurrences_cons, List.cons_prefix_cons, Ne.symm hc] using hrest
  · have hlength : 0 < ss.length := List.length_pos_iff.2 hne
    have hcount : (occurrences ['\n', '\n'] ('\n' :: '\n' :: c :: r)).length =
        (occurrences ['\n', '\n'] (c :: r)).length + 1 := by
      simp [occurrences_cons, List.cons_prefix_cons, Ne.symm hc]
    rw [hbody.occurrences_append, hcount, h.blank, List.length_cons]
    omega
  · rw [paragraphs_append hbody, paragraphs, h.cut]
    rfl

/-- Paragraphs are laid out by putting a line feed between them. -/
theorem laidOut_intercalate {ss : List String} (hne : ss ≠ [])
    (h : ∀ s ∈ ss, IsParagraph s.toList) :
    LaidOut (ss.map String.toList) ("\n".intercalate ss).toList ∧
      Begins ("\n".intercalate ss).toList := by
  induction ss with
  | nil => exact absurd rfl hne
  | cons s ss ih =>
    obtain ⟨hs, hss⟩ := List.forall_mem_cons.1 h
    cases ss with
    | nil =>
      rw [String.intercalate_singleton]
      exact ⟨hs.laidOut, hs.begins⟩
    | cons s' ss =>
      obtain ⟨hlaid, hbegins⟩ := ih (List.cons_ne_nil s' ss) hss
      have htext : ("\n".intercalate (s :: s' :: ss)).toList =
          s.toList ++ '\n' :: ("\n".intercalate (s' :: ss)).toList := by
        rw [String.intercalate_cons_cons, String.toList_append, String.toList_append]
        simp
      rw [htext]
      exact ⟨hlaid.cons hs (by simp) hbegins, hs.begins.append _⟩

end ZodGraph.Text
