import Mathlib.Data.List.Basic
import Mathlib.Data.List.Perm.Basic
import Mathlib.Tactic
import ZodGraph.Selection

/-!
No name is declared twice in the selection of a graph.
-/

namespace ZodGraph

def Selection.names (s : Selection) : List String :=
  s.models.map Model.name ++ s.enums.map Enumeration.name

/-- A ruling takes at most one name, and a free one. -/
lemma Finding.takes_rule (taken : List String) (f : Finding) :
    (f.rule taken).takes = [] ∨ ∃ n ∉ taken, (f.rule taken).takes = [n] := by
  cases f with
  | framework | malformed => exact Or.inl rfl
  | model path m =>
    simp only [Finding.rule]
    rcases m.exclusion? with _ | why
    · by_cases h : m.name ∈ taken
      · simp [h, Ruling.takes]
      · exact Or.inr ⟨m.name, h, by simp [h, Ruling.takes]⟩
    · exact Or.inl rfl
  | enum path e =>
    simp only [Finding.rule]
    by_cases hlib : e.origin = .library
    · simp [hlib, Ruling.takes]
    · by_cases h : e.name ∈ taken
      · simp [hlib, h, Ruling.takes]
      · exact Or.inr ⟨e.name, h, by simp [hlib, h, Ruling.takes]⟩

/-- The names taken are free at the start and pairwise different. -/
lemma takes_rulings (taken : List String) (fs : List Finding) :
    ((rulings taken fs).flatMap Ruling.takes).Nodup ∧
      ∀ n ∈ (rulings taken fs).flatMap Ruling.takes, n ∉ taken := by
  induction fs generalizing taken with
  | nil => simp [rulings]
  | cons f fs ih =>
    rw [rulings, List.flatMap_cons]
    rcases f.takes_rule taken with h | ⟨n, hn, h⟩
    · rw [h]
      exact ih taken
    · rw [h]
      obtain ⟨hnodup, hfree⟩ := ih ([n] ++ taken)
      refine ⟨List.nodup_cons.2 ⟨fun hmem => hfree n hmem (by simp), hnodup⟩, ?_⟩
      intro k hk
      rcases List.mem_cons.1 hk with rfl | hk
      · exact hn
      · exact fun ht => hfree k hk (by simp [ht])

/-- The selection has the names its rulings take. -/
lemma Selection.names_ofRulings_perm (rs : List Ruling) :
    (Selection.ofRulings rs).names.Perm (rs.flatMap Ruling.takes) := by
  induction rs with
  | nil => exact .refl _
  | cons r rs ih =>
    cases r with
    | keptModel m => exact ih.cons m.name
    | keptEnum e => exact List.perm_middle.trans (ih.cons e.name)
    | framework | malformed | excludedModel | libraryEnum | duplicate => exact ih

theorem Namespace.nodup_selection (root : Namespace) : root.selection.names.Nodup :=
  (Selection.names_ofRulings_perm _).nodup_iff.2 (takes_rulings [] _).1

end ZodGraph
