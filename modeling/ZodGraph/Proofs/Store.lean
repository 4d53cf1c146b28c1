import Mathlib.Data.List.Basic
import Mathlib.Tactic
import ZodGraph.Package
import ZodGraph.Store

/-!
What a store holds after writes. A path finds the last file written to an equal path, and paths
are equal if their components are.
-/

namespace ZodGraph

/-- The paths name one file. -/
def Path.Same (a b : String) : Prop := Path.components a = Path.components b

instance (a b : String) : Decidable (Path.Same a b) :=
  inferInstanceAs (Decidable (Path.components a = Path.components b))

/-- The contents of the last file in the list with this path. -/
def lastContents (path : String) (files : List File) : Option String :=
  (files.reverse.find? fun f => Path.Same f.path path).map File.contents

@[simp] lemma lastContents_nil (path : String) : lastContents path [] = none := rfl

lemma lastContents_cons (path : String) (f : File) (files : List File) :
    lastContents path (f :: files) =
      (lastContents path files).or (if Path.Same f.path path then some f.contents else none) := by
  unfold lastContents
  rw [List.reverse_cons, List.find?_append, Option.map_or]
  by_cases h : Path.Same f.path path <;> simp [h]

lemma lastContents_eq_none {path : String} {files : List File}
    (h : ∀ f ∈ files, ¬ Path.Same f.path path) : lastContents path files = none := by
  unfold lastContents
  rw [List.find?_eq_none.2 (by simpa using h), Option.map_none]

/-- A file is found if no later one has its path. -/
lemma lastContents_of_last {path : String} {before after : List File} {f : File}
    (hf : Path.Same f.path path) (hlast : ∀ g ∈ after, ¬ Path.Same g.path path) :
    lastContents path (before ++ f :: after) = some f.contents := by
  induction before with
  | nil => rw [List.nil_append, lastContents_cons, lastContents_eq_none hlast, if_pos hf]; rfl
  | cons b before ih => rw [List.cons_append, lastContents_cons, ih]; rfl

namespace Store

/-- Looking up the path that was put, and any other. -/
lemma find?_insertFile (path contents q : String) (files : List (String × String)) :
    ((insertFile path contents files).find? fun f =>
        Path.components f.1 == Path.components q).map Prod.snd =
      if Path.components path = Path.components q then some contents
      else (files.find? fun f => Path.components f.1 == Path.components q).map Prod.snd := by
  induction files with
  | nil => by_cases h : Path.components path = Path.components q <;> simp [insertFile, h]
  | cons file files ih =>
    obtain ⟨p, c⟩ := file
    unfold insertFile
    by_cases hsame : Path.components p = Path.components path
    · -- the file in this place is replaced
      by_cases h : Path.components path = Path.components q <;> simp [hsame, h]
    · by_cases hbefore : Path.before (Path.components path) (Path.components p)
      · rw [if_neg hsame, if_pos hbefore]
        by_cases h : Path.components path = Path.components q <;> simp [h]
      · rw [if_neg hsame, if_neg hbefore]
        by_cases h : Path.components p = Path.components q
        · have hother : ¬ Path.components path = Path.components q :=
            fun e => hsame (h.trans e.symm)
          simp [h, hother]
        · simpa [h] using ih

theorem get?_write (s : Store) (path contents q : String) :
    (s.write path contents).get? q = if Path.Same path q then some contents else s.get? q :=
  find?_insertFile path contents q s.files

/-- The files written one after the other. -/
def writeFiles (s : Store) (files : List File) : Store :=
  files.foldl (fun s f => s.write f.path f.contents) s

@[simp] lemma writeFiles_nil (s : Store) : s.writeFiles [] = s := rfl

@[simp] lemma writeFiles_cons (s : Store) (f : File) (files : List File) :
    s.writeFiles (f :: files) = (s.write f.path f.contents).writeFiles files := rfl

lemma writeFiles_append (s : Store) (files files' : List File) :
    s.writeFiles (files ++ files') = (s.writeFiles files).writeFiles files' :=
  List.foldl_append

/-- After some writes, a path finds the last one to it, or what was there before. -/
theorem get?_writeFiles (s : Store) (files : List File) (path : String) :
    (s.writeFiles files).get? path = (lastContents path files).or (s.get? path) := by
  induction files generalizing s with
  | nil => rfl
  | cons f files ih =>
    rw [writeFiles_cons, ih, get?_write, lastContents_cons, Option.or_assoc]
    split_ifs <;> rfl

end Store

end ZodGraph
