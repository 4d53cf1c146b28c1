import Mathlib.Data.List.TakeWhile
import Mathlib.Tactic
import ZodGraph.Path
import ZodGraph.Proofs.Text.Split

/-!
File names in paths. A path is pieces between slashes; the last piece that says something is the
name of its file, and the stem is the name without its extension.
-/

namespace ZodGraph.Path

/-- A file name: it says something by itself, and no directory is in it. -/
def PlainName (name : String) : Prop :=
  name ≠ "" ∧ name ≠ "." ∧ name ≠ ".." ∧ '/' ∉ name.toList

instance : DecidablePred PlainName := fun name =>
  inferInstanceAs (Decidable (name ≠ "" ∧ name ≠ "." ∧ name ≠ ".." ∧ '/' ∉ name.toList))

lemma split_plain {name : String} (h : PlainName name) : Text.split '/' name = [name] :=
  Text.split_of_not_mem h.2.2.2

lemma innerComponent?_plain {name : String} (h : PlainName name) :
    innerComponent? name = some (.name name) := by
  obtain ⟨hempty, hdot, hdots, -⟩ := h
  simp [innerComponent?, hempty, hdot, hdots]

/-! ### The name of the file -/

/-- The last piece of the path that says something is the name. Only empty pieces and dots may
come after it. -/
def EndsIn (path name : String) : Prop :=
  PlainName name ∧ ∃ above below : List String,
    path = "/".intercalate (above ++ name :: below) ∧ ∀ p ∈ below, p = "" ∨ p = "."

section EndsIn

variable {path name piece : String}

lemma innerComponent?_eq_none_iff : innerComponent? piece = none ↔ piece = "" ∨ piece = "." := by
  unfold innerComponent?
  split_ifs <;> simp_all

lemma plainName_of_innerComponent? (h : innerComponent? piece = some (.name name))
    (hslash : '/' ∉ piece.toList) : piece = name ∧ PlainName name := by
  unfold innerComponent? at h
  split_ifs at h with hnothing hdots
  · simp at h
  · obtain rfl : piece = name := by simpa using h
    obtain ⟨hempty, hdot⟩ := not_or.1 hnothing
    exact ⟨rfl, hempty, hdot, hdots, hslash⟩

/-- The piece in front of all slashes of an absolute path is empty. -/
lemma first_of_isAbsolute {first : String} {rest : List String} (habs : isAbsolute path)
    (hsplit : Text.split '/' path = first :: rest) : first = "" := by
  rcases hchars : path.toList with _ | ⟨c, cs⟩
  · simp [isAbsolute, hchars] at habs
  · obtain rfl : c = '/' := by simpa [isAbsolute, hchars] using habs
    rw [Text.split, hchars, Text.splitChars, if_pos rfl, List.map_cons] at hsplit
    exact (List.cons.inj hsplit).1.symm

/-- The components of the first piece: one of a path by itself, or that of an inner piece. -/
lemma exists_start {first : String} {rest : List String}
    (hsplit : Text.split '/' path = first :: rest) :
    ∃ start, components path = start ++ rest.filterMap innerComponent? ∧
      (PlainName first → start = [.name first]) ∧
      ∀ n, .name n ∈ start → innerComponent? first = some (.name n) := by
  unfold components
  rw [hsplit]
  refine ⟨_, rfl, fun hplain => ?_, fun n hn => ?_⟩
  · have hrelative : ¬ isAbsolute path := fun habs => hplain.1 (first_of_isAbsolute habs hsplit)
    simp [hrelative, hplain.2.1, innerComponent?_plain hplain]
  · split_ifs at hn
    · simp at hn
    · simp at hn
    · simpa using hn

lemma endsIn_of_getLast? (h : (components path).getLast? = some (.name name)) :
    EndsIn path name := by
  have hjoin : "/".intercalate (Text.split '/' path) = path := Text.intercalate_split rfl path
  have hslash : ∀ p ∈ Text.split '/' path, '/' ∉ p.toList := fun p => Text.not_mem_of_mem_split
  have quiet {ps : List String} (hps : ps.filterMap innerComponent? = []) :
      ∀ p ∈ ps, p = "" ∨ p = "." := fun p hp =>
    innerComponent?_eq_none_iff.1 (List.filterMap_eq_nil_iff.1 hps p hp)
  rcases hsplit : Text.split '/' path with _ | ⟨first, rest⟩
  · exact absurd hsplit (Text.split_ne_nil '/' path)
  rw [hsplit] at hjoin hslash
  obtain ⟨start, hstart, -, hname⟩ := exists_start hsplit
  rw [hstart, List.getLast?_append] at h
  -- the name stands in the first piece, or in a later one
  rcases hrest : (rest.filterMap innerComponent?).getLast? with _ | c
  · rw [hrest, Option.none_or] at h
    obtain ⟨rfl, hplain⟩ := plainName_of_innerComponent? (hname name (List.mem_of_getLast? h))
      (hslash first List.mem_cons_self)
    exact ⟨hplain, [], rest, hjoin.symm, quiet (List.getLast?_eq_none_iff.1 hrest)⟩
  · obtain rfl : c = .name name := by simpa [hrest] using h
    obtain ⟨zs, hzs⟩ := List.getLast?_eq_some_iff.1 hrest
    obtain ⟨front, back, rfl, -, hback⟩ := List.filterMap_eq_append_iff.1 hzs
    obtain ⟨front', piece, below, rfl, -, hpiece, hbelow⟩ := List.filterMap_eq_cons_iff.1 hback
    obtain ⟨rfl, hplain⟩ := plainName_of_innerComponent? hpiece (hslash piece (by simp))
    exact ⟨hplain, first :: (front ++ front'), below, by simp [← hjoin], quiet hbelow⟩

lemma getLast?_of_endsIn (h : EndsIn path name) :
    (components path).getLast? = some (.name name) := by
  obtain ⟨hplain, above, below, rfl, hbelow⟩ := h
  have hquiet : below.filterMap innerComponent? = [] :=
    List.filterMap_eq_nil_iff.2 fun p hp => innerComponent?_eq_none_iff.2 (hbelow p hp)
  have hpieces : below.flatMap (Text.split '/') = below := by
    have hsame : ∀ p ∈ below, Text.split '/' p = [p] := by
      intro p hp
      rcases hbelow p hp with rfl | rfl <;> rfl
    rw [List.flatMap_congr hsame, List.flatMap_singleton']
  have hsplit : Text.split '/' ("/".intercalate (above ++ name :: below)) =
      above.flatMap (Text.split '/') ++ name :: below := by
    rw [Text.split_intercalate rfl (by simp), List.flatMap_append, List.flatMap_cons,
      split_plain hplain, hpieces]
    rfl
  rcases habove : above.flatMap (Text.split '/') with _ | ⟨first, rest⟩
  · rw [habove, List.nil_append] at hsplit
    obtain ⟨start, hstart, hfirst, -⟩ := exists_start hsplit
    rw [hstart, hfirst hplain, hquiet]
    rfl
  · rw [habove, List.cons_append] at hsplit
    obtain ⟨start, hstart, -, -⟩ := exists_start hsplit
    have hinner := innerComponent?_plain hplain
    rw [hstart, List.filterMap_append, List.filterMap_cons_some hinner, hquiet,
      ← List.append_assoc, List.getLast?_concat]

end EndsIn

/-! ### Its stem -/

/-- The name without its extension, which begins at the last dot. A name that has no dot, or none
but the one it begins with, is its own stem. -/
def IsStem (name stem : String) : Prop :=
  (stem ≠ "" ∧ ∃ ext : String, name = stem ++ "." ++ ext ∧ '.' ∉ ext.toList) ∨
    ('.' ∉ name.toList.tail ∧ stem = name)

section IsStem

variable {name stem ext : String}

lemma stemOf_of_not_mem (h : '.' ∉ name.toList) : stemOf name = name := by
  have hdrop : name.toList.reverse.dropWhile (· ≠ '.') = [] := by
    rw [List.dropWhile_eq_nil_iff]
    intro c hc
    simpa using ne_of_mem_of_not_mem (List.mem_reverse.1 hc) h
  simp only [stemOf, hdrop]
  rfl

lemma stemOf_append (hext : '.' ∉ ext.toList) :
    stemOf (stem ++ "." ++ ext) = if stem = "" then stem ++ "." ++ ext else stem := by
  have hback : (stem ++ "." ++ ext).toList.reverse =
      ext.toList.reverse ++ '.' :: stem.toList.reverse := by simp
  have hdrop : (stem ++ "." ++ ext).toList.reverse.dropWhile (· ≠ '.') =
      '.' :: stem.toList.reverse := by
    rw [hback, List.dropWhile_append_of_pos, List.dropWhile_cons_of_neg (by simp)]
    intro c hc
    simpa using ne_of_mem_of_not_mem (List.mem_reverse.1 hc) hext
  simp only [stemOf, hdrop]
  simp

/-- A name with a dot is cut at the last one. -/
lemma exists_extension (h : '.' ∈ name.toList) :
    ∃ stem ext : String, name = stem ++ "." ++ ext ∧ '.' ∉ ext.toList := by
  obtain ⟨back, front, hname, hback⟩ := List.eq_append_cons_of_mem (List.mem_reverse.2 h)
  refine ⟨String.ofList front.reverse, String.ofList back.reverse, ?_, by simpa using hback⟩
  rw [← String.toList_inj, ← List.reverse_inj, hname]
  simp

lemma isStem_stemOf (name : String) : IsStem name (stemOf name) := by
  by_cases hdot : '.' ∈ name.toList
  · obtain ⟨stem, ext, rfl, hext⟩ := exists_extension hdot
    rw [stemOf_append hext]
    split_ifs with hempty
    · exact Or.inr ⟨by simpa [hempty] using hext, rfl⟩
    · exact Or.inl ⟨hempty, ext, rfl, hext⟩
  · rw [stemOf_of_not_mem hdot]
    exact Or.inr ⟨fun hmem => hdot (List.mem_of_mem_tail hmem), rfl⟩

lemma stemOf_eq_iff : stemOf name = stem ↔ IsStem name stem := by
  constructor
  · rintro rfl
    exact isStem_stemOf name
  · rintro (⟨hne, ext, rfl, hext⟩ | ⟨htail, rfl⟩)
    · rw [stemOf_append hext, if_neg hne]
    · -- a dot can only be the first character
      by_cases hdot : '.' ∈ stem.toList
      · obtain ⟨front, ext, rfl, hext⟩ := exists_extension hdot
        rw [stemOf_append hext, if_pos]
        by_contra hne
        obtain ⟨c, cs, hfront⟩ := List.exists_cons_of_ne_nil (mt String.toList_eq_nil_iff.1 hne)
        exact htail (by simp [hfront])
      · exact stemOf_of_not_mem hdot

end IsStem

/-- The path ends in a name with this stem. -/
def HasStem (path stem : String) : Prop := ∃ name, EndsIn path name ∧ IsStem name stem

/-- **The stem of a path** is that of the name it ends in. -/
theorem stem?_eq_some_iff {path stem : String} : stem? path = some stem ↔ HasStem path stem := by
  constructor
  · intro h
    unfold stem? at h
    split at h
    · next name hlast =>
      exact ⟨name, endsIn_of_getLast? hlast, stemOf_eq_iff.1 (Option.some.inj h)⟩
    · simp at h
  · rintro ⟨name, hname, hstem⟩
    rw [stem?, getLast?_of_endsIn hname, ← stemOf_eq_iff.2 hstem]

example : stem? "gen/models.v2.ts/./" = some "models.v2" ∧ stem? ".env" = some ".env" ∧
    stem? "a/.." = none := by decide

end ZodGraph.Path
