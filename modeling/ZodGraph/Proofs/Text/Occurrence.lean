import Mathlib.Data.List.Basic
import Mathlib.Data.List.Infix
import Mathlib.Tactic

/-!
Where a word occurs in a text. Occurrences can be counted piece by piece as long as no piece
ends in the beginning of the word.
-/

namespace ZodGraph.Text

variable {α : Type} {word a b r : List α}

/-! ### Pieces without the word -/

/-- Nowhere in the text does the word begin, whatever follows the text. -/
def Apart (word text : List α) : Prop :=
  ∀ s ∈ text.tails, s ≠ [] → ¬ word <+: s ∧ ¬ s <+: word

instance [DecidableEq α] (word text : List α) : Decidable (Apart word text) :=
  List.decidableBAll _ _

lemma apart_nil (word : List α) : Apart word [] := by
  simp [Apart]

lemma apart_cons {c : α} :
    Apart word (c :: r) ↔ (¬ word <+: c :: r ∧ ¬ c :: r <+: word) ∧ Apart word r := by
  simp [Apart]

lemma Apart.not_prefix (h : Apart word a) (hne : a ≠ []) (r : List α) : ¬ word <+: a ++ r := by
  intro hw
  obtain ⟨hword, ha⟩ := h a (by simp) hne
  rcases List.prefix_or_prefix_of_prefix hw (List.prefix_append a r) with hp | hp
  · exact hword hp
  · exact ha hp

lemma Apart.append (ha : Apart word a) (hb : Apart word b) : Apart word (a ++ b) := by
  induction a with
  | nil => exact hb
  | cons c a ih =>
    obtain ⟨hc, hrest⟩ := apart_cons.1 ha
    refine apart_cons.2 ⟨⟨ha.not_prefix (List.cons_ne_nil c a) b, fun hp => ?_⟩, ih hrest⟩
    exact hc.2 ((List.prefix_append (c :: a) b).trans hp)

/-- Text without the first character of the word is apart from it. -/
lemma apart_of_not_mem {c : α} (h : c ∉ a) : Apart (c :: word) a := by
  induction a with
  | nil => exact apart_nil _
  | cons d a ih =>
    obtain ⟨hd, ha⟩ := not_or.1 (List.mem_cons.not.1 h)
    refine apart_cons.2 ⟨?_, ih ha⟩
    simp [List.cons_prefix_cons, hd, Ne.symm hd]

/-- A character may be put in front if it is not the first of the word, or is not followed by the
second. -/
lemma Apart.cons {c d e : α} (h : Apart (d :: e :: word) r) (hne : r ≠ [])
    (hc : c = d → r.head? ≠ some e) : Apart (d :: e :: word) (c :: r) := by
  refine apart_cons.2 ⟨?_, h⟩
  cases r with
  | nil => exact absurd rfl hne
  | cons f r =>
    simp only [List.head?_cons, ne_eq, Option.some.injEq] at hc
    simp only [List.cons_prefix_cons]
    exact ⟨fun hp => hc hp.1.symm hp.2.1.symm, fun hp => hc hp.1 hp.2.1⟩

/-- Text without the second character of the word may end in the first. It is apart from the
word together with a character that is neither. -/
lemma apart_of_second_not_mem {d e f : α} (hd : f ≠ d) (he : f ≠ e) (h : e ∉ a) :
    Apart (d :: e :: word) (a ++ [f]) := by
  induction a with
  | nil => exact apart_of_not_mem (by simpa using hd.symm)
  | cons c a ih =>
    obtain ⟨-, ha⟩ := not_or.1 (List.mem_cons.not.1 h)
    refine (ih ha).cons (by simp) fun _ hhead => ?_
    rcases List.mem_append.1 (List.mem_of_mem_head? hhead) with hmem | hmem
    · exact ha hmem
    · exact he (List.mem_singleton.1 hmem).symm

/-- Text apart from a word is apart from every longer one. -/
lemma Apart.longer (h : Apart word a) (w : List α) : Apart (word ++ w) a := by
  intro s hs hne
  obtain ⟨hword, hprefix⟩ := h s hs hne
  refine ⟨fun hp => hword ((List.prefix_append word w).trans hp), fun hp => ?_⟩
  rcases List.prefix_or_prefix_of_prefix hp (List.prefix_append word w) with hp | hp
  · exact hprefix hp
  · exact hword hp

lemma Apart.map {β : Type} {f : α → β} (hf : Function.Injective f) (h : Apart word a) :
    Apart (word.map f) (a.map f) := by
  induction a with
  | nil => exact apart_nil _
  | cons c a ih =>
    obtain ⟨hc, ha⟩ := apart_cons.1 h
    refine apart_cons.2 ⟨?_, ih ha⟩
    rw [← List.map_cons, List.prefix_map_iff_of_injective hf, List.prefix_map_iff_of_injective hf]
    exact hc

/-! ### Occurrences -/

variable [DecidableEq α]

/-- The text from each place on where the word occurs, in the order of the places. -/
def occurrences (word text : List α) : List (List α) := text.tails.filter (word <+: ·)

lemma occurrences_nil (h : word ≠ []) : occurrences word [] = [] := by
  simp [occurrences, h]

lemma occurrences_cons (word : List α) (c : α) (r : List α) :
    occurrences word (c :: r) =
      if word <+: c :: r then (c :: r) :: occurrences word r else occurrences word r := by
  simp [occurrences, List.filter_cons]

lemma occurrences_eq_nil_iff : occurrences word a = [] ↔ ¬ word <:+: a := by
  simp only [occurrences, List.filter_eq_nil_iff, List.mem_tails, decide_eq_true_eq,
    List.infix_iff_prefix_suffix, not_exists, not_and]
  exact forall_congr' fun t => imp_not_comm

/-- Text apart from the word can be passed over. -/
lemma Apart.occurrences_append (h : Apart word a) (r : List α) :
    occurrences word (a ++ r) = occurrences word r := by
  induction a with
  | nil => rfl
  | cons c a ih =>
    have hc : ¬ word <+: c :: (a ++ r) := h.not_prefix (List.cons_ne_nil c a) r
    rw [List.cons_append, occurrences_cons, if_neg hc, ih (apart_cons.1 h).2]

end ZodGraph.Text
