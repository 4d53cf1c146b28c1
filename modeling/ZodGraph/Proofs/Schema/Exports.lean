import Mathlib.Data.List.TakeWhile
import Mathlib.Tactic
import ZodGraph.Proofs.Schema.Sections
import ZodGraph.Proofs.Text.Split

/-!
What a document exports, read off its lines. Each definition gives one such line, its first: no
other begins as it does, whatever stands in keys, values and package data.
-/

namespace ZodGraph

namespace Schema

open Text

/-- The constant that a line exports: the name between `export const ` and ` = `. -/
def exported? (line : String) : Option String :=
  ("export const ".toList.isPrefixOf? line.toList).bind fun rest =>
    if " = ".toList <+: rest.dropWhile isNameChar then
      some (String.ofList (rest.takeWhile isNameChar))
    else none

/-- The constants that a document exports, in the order of its lines. -/
def exports (document : String) : List String := (split '\n' document).filterMap exported?

lemma exported?_eq_some_iff {line name : String} : exported? line = some name ↔
    plainName name = true ∧ ∃ rest, line = "export const " ++ name ++ " = " ++ rest := by
  constructor
  · intro h
    obtain ⟨rest, hrest, hname⟩ := Option.bind_eq_some_iff.1 h
    rw [List.isPrefixOf?_eq_some_iff_append_eq] at hrest
    split_ifs at hname with hstop
    obtain rfl := Option.some.inj hname
    obtain ⟨more, hmore⟩ := hstop
    refine ⟨plainName_iff.2 fun c hc => ?_, String.ofList more, ?_⟩
    · rw [String.toList_ofList] at hc
      exact List.mem_takeWhile_imp hc
    · have hcut : rest = rest.takeWhile isNameChar ++ (" = ".toList ++ more) := by
        rw [hmore, List.takeWhile_append_dropWhile]
      rw [← String.toList_inj, ← hrest]
      simpa using hcut
  · rintro ⟨hplain, rest, rfl⟩
    have hname : ∀ c ∈ name.toList, isNameChar c = true := plainName_iff.1 hplain
    have hblank : ¬ isNameChar ' ' = true := by decide
    have hline : ("export const " ++ name ++ " = " ++ rest).toList =
        "export const ".toList ++ (name.toList ++ ' ' :: '=' :: ' ' :: rest.toList) := by simp
    have hstop : " = ".toList <+: ' ' :: '=' :: ' ' :: rest.toList :=
      List.prefix_append [' ', '=', ' '] rest.toList
    refine Option.bind_eq_some_iff.2
      ⟨_, List.isPrefixOf?_eq_some_iff_append_eq.2 hline.symm, ?_⟩
    rw [List.dropWhile_append_of_pos hname, List.dropWhile_cons_of_neg hblank,
      List.takeWhile_append_of_pos hname, List.takeWhile_cons_of_neg hblank, List.append_nil,
      String.ofList_toList, if_pos hstop]

lemma exported?_eq_none {line : String} (h : line.toList.head? ≠ some 'e') :
    exported? line = none := by
  rw [Option.eq_none_iff_forall_ne_some]
  intro name hname
  obtain ⟨-, rest, rfl⟩ := exported?_eq_some_iff.1 hname
  simp at h

lemma exports_intercalate {ss : List String} (hne : ss ≠ []) :
    exports ("\n".intercalate ss) = ss.flatMap exports := by
  rw [exports, split_intercalate rfl hne, List.filterMap_flatMap]
  rfl

/-- A single line exports nothing unless it begins with an `e`. -/
lemma exports_of_line {line : String} (h : '\n' ∉ line.toList)
    (hhead : line.toList.head? ≠ some 'e') : exports line = [] := by
  rw [exports, split_of_not_mem h]
  simp [exported?_eq_none hhead]

/-- The text after an export line has no other, if no line in it begins with an `e`. -/
lemma exports_of_apart {name body : String} (hname : plainName name = true)
    (hbody : Apart ['\n', 'e'] body.toList) :
    exports ("export const " ++ name ++ " = " ++ body) = [name] := by
  have hstart : '\n' ∉ ("export const " ++ name ++ " = ").toList := by
    simpa using newline_not_mem_plainName hname
  rcases hlines : split '\n' body with _ | ⟨first, others⟩
  · exact absurd hlines (split_ne_nil '\n' body)
  have hfirst : exported? ("export const " ++ name ++ " = " ++ first) = some name :=
    exported?_eq_some_iff.2 ⟨hname, first, rfl⟩
  have hothers : others.filterMap exported? = [] := by
    have htail : others = (splitChars '\n' body.toList).tail.map String.ofList := by
      rw [List.map_tail, ← split, hlines, List.tail_cons]
    rw [htail, List.filterMap_eq_nil_iff, List.forall_mem_map]
    intro line hline
    exact exported?_eq_none (by simpa using head?_ne_of_apart hbody line hline)
  rw [exports, split_append_of_not_mem hstart hlines, List.filterMap_cons_some hfirst, hothers]

lemma Definition.exports_text {d : Definition} (hname : plainName d.name = true)
    (h : ∀ n, d.expr.Names n → '\n' ∉ n.toList) : exports d.text = [identifier d.name] := by
  have hexpr : Apart ['\n', 'e'] (d.expr.text 0).toList :=
    (fragmentwise_apart (by decide) (by decide)).text d.expr h 0
  have hbody : Apart ['\n', 'e'] (d.expr.text 0 ++ ";").toList := by
    rw [String.toList_append]
    exact hexpr.append (by decide)
  have htext : d.text = "\n".intercalate
      ["export const " ++ identifier d.name ++ " = " ++ (d.expr.text 0 ++ ";"), ""] := by
    rw [← String.toList_inj, d.toList_text]
    simp [String.intercalate_cons_cons]
  have hend : exports "" = [] := exports_of_line (by simp) (by simp)
  rw [htext, exports_intercalate (by simp), List.flatMap_cons, List.flatMap_singleton,
    exports_of_apart (plainName_identifier hname) hbody, hend, List.append_nil]

lemma exports_import : exports zodImport.text = [] := by decide

/-- The lines of the comment begin with a slash or a space. -/
lemma Metadata.exports_text {name version : String} (hname : '\n' ∉ name.toList)
    (hversion : '\n' ∉ version.toList) :
    exports (Metadata.text ⟨some name, some version⟩) = [] := by
  have htext : Metadata.text ⟨some name, some version⟩ = "\n".intercalate
      ["/**", " * Package: " ++ commentText name, " * Version: " ++ commentText version, " */",
        ""] := by
    rw [← String.toList_inj]
    simp [Metadata.text, metadataLine, String.intercalate_cons_cons]
  have hlines : ∀ line ∈ ["/**", " * Package: " ++ commentText name,
      " * Version: " ++ commentText version, " */", ""],
      '\n' ∉ line.toList ∧ line.toList.head? ≠ some 'e' := by
    simp [newline_not_mem_commentText hname, newline_not_mem_commentText hversion]
  rw [htext, exports_intercalate (by simp), List.flatMap_eq_nil_iff]
  exact fun line hline => exports_of_line (hlines line hline).1 (hlines line hline).2

end Schema

namespace Namespace

open Schema (exports identifier plainName Definition Metadata)

variable {root : Namespace} {o : Options} {name version : String}

/-- A document with package data exports its definitions, in order. -/
lemma exports_module (hname : o.packageName = some name)
    (hversion : o.packageVersion = some version)
    (hplain : ∀ n ∈ root.selection.names, plainName n = true)
    (hname' : '\n' ∉ name.toList) (hversion' : '\n' ∉ version.toList) :
    exports (root.selection.module o).text =
      (root.selection.module o).definitions.map fun d => identifier d.name := by
  have hmetadata : o.metadata = some ⟨some name, some version⟩ := by
    simp [Options.metadata, hname, hversion]
  have hdefinition : ∀ d ∈ (root.selection.module o).definitions,
      exports d.text = [identifier d.name] := by
    intro d hd
    refine Definition.exports_text (hplain _ (Selection.name_mem_names hd)) fun n hn => ?_
    rcases Selection.names_definition hd hn with rfl | hn
    · decide
    · exact Schema.newline_not_mem_plainName (hplain n hn)
  rw [text_eq_sections, Schema.exports_intercalate (by simp [sections]), sections_eq, hmetadata]
  simp only [List.flatMap_cons, List.flatMap_append, Option.toList_some, List.map_cons,
    List.map_nil, List.flatMap_nil, Schema.exports_import, Metadata.exports_text hname' hversion',
    List.nil_append, List.append_nil, List.flatMap_map]
  rw [List.flatMap_congr hdefinition, List.map_eq_flatMap]

end Namespace

end ZodGraph
