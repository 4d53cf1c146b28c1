import Mathlib.Data.List.Basic
import Mathlib.Tactic
import ZodGraph.Proofs.Schema.Document
import ZodGraph.Proofs.Schema.ReadBack
import ZodGraph.Proofs.Script.Scan

/-!
Package data stays in the comment it is shown in. Whatever the name and the version are, the
comment has one closing mark, at its end, and a script engine that reads the module from the top
takes the comment for one piece.
-/

namespace ZodGraph.Schema

open Script Text

/-! ### Guarded text -/

/-- No closing mark begins in guarded text or at its end. -/
lemma apart_guardComment (cs : List Char) : Apart ['*', '/'] (guardComment cs ++ ['\n']) := by
  fun_induction guardComment cs with
  | case1 cs ih => exact Apart.append (a := ['*', '\\', '/']) (by decide) ih
  | case2 c cs hc ih =>
    refine ih.cons (by simp) fun hstar hslash => ?_
    rw [List.head?_append, head?_guardComment] at hslash
    -- a slash after the star would have been guarded
    cases cs with
    | nil => cases hslash
    | cons d cs => exact hc cs hstar (by simpa using hslash)
  | case3 => decide

/-- Text without a closing mark needs no guard. -/
lemma guardComment_of_not_infix {cs : List Char} (h : ¬ ['*', '/'] <:+: cs) :
    guardComment cs = cs := by
  fun_induction guardComment cs with
  | case1 cs => exact absurd (List.prefix_append ['*', '/'] cs).isInfix h
  | case2 c cs _ ih => rw [ih fun hcs => h (List.infix_cons hcs)]
  | case3 => rfl

lemma guardComment_guardComment (cs : List Char) :
    guardComment (guardComment cs) = guardComment cs := by
  apply guardComment_of_not_infix
  intro hmark
  have hnone := (apart_guardComment cs).occurrences_append []
  rw [List.append_nil, occurrences_nil (by simp), occurrences_eq_nil_iff] at hnone
  exact hnone (hmark.trans (List.infix_append' [] _ _))

/-! ### The comment -/

lemma apart_metadataLine {label : String} (h : '*' ∉ label.toList) (o : Option String) :
    Apart ['*', '/'] (metadataLine label o).toList := by
  cases o with
  | none => exact apart_nil _
  | some s =>
    have htext : (metadataLine label (some s)).toList = [' ', '*', ' '] ++ (label.toList ++
        ([':', ' '] ++ (guardComment s.toList ++ ['\n']))) := by
      simp [metadataLine, commentText]
    rw [htext]
    exact .append (by decide) ((apart_of_not_mem h).append
      (.append (by decide) (apart_guardComment _)))

/-- What stands between the marks of the comment. -/
def Metadata.body (m : Metadata) : List Char :=
  ['*', '\n'] ++ ((metadataLine "Package" m.packageName).toList ++
    ((metadataLine "Version" m.packageVersion).toList ++ [' ']))

lemma Metadata.toList_text (m : Metadata) :
    m.text.toList = ['/', '*'] ++ (m.body ++ ['*', '/', '\n']) := by
  simp [Metadata.text, Metadata.body]

lemma Metadata.apart_body (m : Metadata) : Apart ['*', '/'] m.body := by
  refine .append (by decide) (.append (apart_metadataLine (by decide) _) ?_)
  exact .append (apart_metadataLine (by decide) _) (by decide)

/-- The only closing mark is the last. -/
lemma Metadata.occurrences_text (m : Metadata) :
    occurrences ['*', '/'] m.text.toList = [['*', '/', '\n']] := by
  -- the opening mark ends in a star, but no slash follows
  have hstar : Apart ['*', '/'] ('*' :: m.body) :=
    m.apart_body.cons (by simp [Metadata.body]) fun _ hslash => by simp [Metadata.body] at hslash
  have hopen : Apart ['*', '/'] (['/', '*'] ++ m.body) :=
    hstar.cons (by simp) fun hslash => absurd hslash (by decide)
  rw [m.toList_text, ← List.append_assoc, hopen.occurrences_append]
  decide

lemma Metadata.reads_text (m : Metadata) (r : List Char) :
    Reads (m.text.toList ++ r) [.comment m.body] ('\n' :: r) := by
  have hcomment : readComment (m.text.toList ++ r) = some (m.body, '\n' :: r) := by
    have hrest := commentRest_append m.apart_body ('\n' :: r)
    simpa [m.toList_text, readComment] using hrest
  have hstart : m.text.toList ++ r = '/' :: ('*' :: m.body ++ ['*', '/', '\n'] ++ r) := by
    simp [m.toList_text]
  refine .one ?_
  rw [hstart] at hcomment ⊢
  rw [readPiece, if_neg (by decide), if_pos rfl, hcomment]
  rfl

/-! ### The module -/

/-- A string literal is one piece. -/
lemma reads_stringLiteral (s : String) (r : List Char) :
    Reads ((stringLiteral s).toList ++ r) [.string (units s)] r := by
  have hread := readString_stringLiteral s r
  rw [toList_stringLiteral, List.append_assoc, List.cons_append] at hread ⊢
  refine .one ?_
  rw [readPiece, if_neg (by decide), if_neg (by decide), hread]
  rfl

/-- The import leaves nothing open. -/
lemma exists_reads_import (r : List Char) :
    ∃ ps, Reads (zodImport.text.toList ++ '\n' :: r) ps r := by
  have himport : zodImport.text = "import \x7b z \x7d from " ++ stringLiteral "zod" ++ ";\n" := rfl
  have htext : zodImport.text.toList ++ '\n' :: r = "import \x7b z \x7d from ".toList ++
      ((stringLiteral "zod").toList ++ (";\n\n".toList ++ r)) := by
    simp [himport]
  rw [htext]
  exact ⟨_, (reads_code (by decide) _).append ((reads_stringLiteral _ _).append
    (reads_code (by decide) r))⟩

/-- **Package data stays in its comment**: the text of the comment has one closing mark, and only
a line feed follows it. An engine that reads a module from the top comes to the comment outside
of strings and comments, and reads it as one piece up to that mark. Guarding a text twice is the
same as guarding it once. -/
theorem metadata_in_comment :
    (∀ m : Metadata, occurrences "*/".toList m.text.toList = ["*/\n".toList]) ∧
    (∀ a : Module, a.imports = [zodImport] → ∀ m ∈ a.metadata, ∃ before body,
      a.text.toList =
        zodImport.text.toList ++ '\n' :: (m.text.toList ++ definitionsText a.definitions) ∧
      m.text.toList = "/*".toList ++ (body ++ "*/\n".toList) ∧
      Reads a.text.toList before (m.text.toList ++ definitionsText a.definitions) ∧
      Reads (m.text.toList ++ definitionsText a.definitions) [.comment body]
        ('\n' :: definitionsText a.definitions)) ∧
    ∀ s, commentText (commentText s) = commentText s := by
  refine ⟨fun m => m.occurrences_text, fun a himports m hm => ?_, fun s => ?_⟩
  · obtain ⟨before, hbefore⟩ := exists_reads_import (m.text.toList ++ definitionsText a.definitions)
    have htext : a.text.toList =
        zodImport.text.toList ++ '\n' :: (m.text.toList ++ definitionsText a.definitions) := by
      rw [toList_moduleText himports, Option.mem_def.1 hm]
      simp [metadataText]
    rw [← htext] at hbefore
    exact ⟨before, m.body, htext, m.toList_text, hbefore, m.reads_text _⟩
  · rw [commentText, commentText, String.toList_ofList, guardComment_guardComment]

/-- Package data that try to close the comment. -/
def intruder : Metadata := ⟨some "a*/b**//", some "*/\n */\n1*"⟩

def intruded : Module :=
  Selection.module { enums := [{ name := "Tag" }] }
    { packageName := some "a*/b**//", packageVersion := some "*/\n */\n1*" }

theorem metadata_in_comment_intruder :
    intruded.metadata = some intruder ∧
    intruder.text.toList =
      "/**\n * Package: a*\\/b**\\//\n * Version: *\\/\n *\\/\n1*\n */\n".toList ∧
    occurrences "*/".toList intruder.text.toList = ["*/\n".toList] ∧
    (∃ before body,
      intruded.text.toList = zodImport.text.toList ++
        '\n' :: (intruder.text.toList ++ definitionsText intruded.definitions) ∧
      intruder.text.toList = "/*".toList ++ (body ++ "*/\n".toList) ∧
      Reads intruded.text.toList before
        (intruder.text.toList ++ definitionsText intruded.definitions) ∧
      Reads (intruder.text.toList ++ definitionsText intruded.definitions) [.comment body]
        ('\n' :: definitionsText intruded.definitions)) ∧
    commentText (commentText "a*/b**//") = commentText "a*/b**//" := by
  obtain ⟨hone, hmodule, htwice⟩ := metadata_in_comment
  exact ⟨rfl, by decide, hone intruder, hmodule intruded rfl intruder rfl, htwice _⟩

end ZodGraph.Schema
