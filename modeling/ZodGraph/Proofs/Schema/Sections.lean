import Mathlib.Data.List.Basic
import Mathlib.Tactic
import ZodGraph.Proofs.Schema.Document
import ZodGraph.Proofs.Schema.Indent
import ZodGraph.Proofs.Schema.Once
import ZodGraph.Proofs.Text.Paragraph

/-!
The layout of a document. The import, the package data, the enums and the models each are a
section of their own, without a blank line in it, and one blank line stands between two sections.
-/

namespace ZodGraph

namespace Schema

open Text

/-! ### No blank line in a section -/

variable {c : Char}

lemma apart_newlines {t : List Char} (h : '\n' ∉ t) : Apart ['\n', c] t := apart_of_not_mem h

/-- A line that is not empty and begins with some other character. -/
lemma apart_line {t : List Char} (h : '\n' ∉ t) (hne : t ≠ []) (hhead : t.head? ≠ some c) :
    Apart ['\n', c] ('\n' :: t) :=
  (apart_newlines h).cons hne fun _ => hhead

lemma toList_indentation_succ (l : Nat) :
    (indentation (l + 1)).toList = ' ' :: ' ' :: (indentation l).toList := by
  simp [indentation, Nat.mul_succ, List.replicate_succ]

/-- That no line begins with some character can be checked fragment by fragment, unless lines may
begin with it by themselves. With a line feed for the character, no line is blank. -/
lemma fragmentwise_apart (hspace : ' ' ≠ c) (hclose : '\x7d' ≠ c) :
    Fragmentwise ('\n' ∉ ·.toList) fun T _ => ∀ l, Apart ['\n', c] (T l) where
  empty _ := apart_nil _
  append hT hU l := (hT l).append (hU l)
  deeper h l := h (l + 1)
  word h _ := apart_newlines (newline_not_mem_word h)
  name h _ := apart_newlines h
  string s _ := apart_newlines (newline_not_mem_stringLiteral s)
  bare h _ := apart_newlines (by simpa using newline_not_mem_bare h)
  field name l := by
    refine apart_line ?_ ?_ ?_
    · simpa using ⟨newline_not_mem_indentation (l + 1), newline_not_mem_key name⟩
    · simp [toList_indentation_succ]
    · simpa [toList_indentation_succ] using hspace
  close l := by
    refine apart_line ?_ (by simp) ?_
    · simpa using newline_not_mem_indentation l
    · cases l with
      | zero => simpa [indentation] using hclose
      | succ l => simpa [toList_indentation_succ] using hspace
  optional _ := apart_newlines (t := ".optional()".toList) (by decide)

/-- The text of a definition is a paragraph, if no name in it has a line feed. -/
lemma Definition.isParagraph {d : Definition} (hname : '\n' ∉ d.name.toList)
    (h : ∀ n, d.expr.Names n → '\n' ∉ n.toList) : IsParagraph d.text.toList := by
  have hexpr : Apart ['\n', '\n'] (d.expr.text 0).toList :=
    (fragmentwise_apart (by decide) (by decide)).text d.expr h 0
  have hidentifier : '\n' ∉ (identifier d.name).toList := by
    rw [identifier, String.toList_append, List.mem_append]
    exact not_or.2 ⟨hname, by decide⟩
  refine ⟨"export const ".toList ++ ((identifier d.name).toList ++ (" = ".toList ++
    ((d.expr.text 0).toList ++ [';']))), ?_, ⟨'e', _, rfl, by decide⟩, ?_⟩
  · rw [d.toList_text]
    simp
  · exact .append (by decide) ((apart_newlines hidentifier).append
      (.append (by decide) (hexpr.append (by decide))))

lemma isParagraph_import : IsParagraph zodImport.text.toList := by
  refine ⟨"import \x7b z \x7d from \"zod\";".toList, rfl, ⟨'i', _, rfl, by decide⟩, by decide⟩

/-- A line of the comment with the line feed before it and without the one after it. -/
def metadataEntry (label : String) (o : Option String) : List Char :=
  o.elim [] fun s => '\n' :: (" * ".toList ++ (label.toList ++ (": ".toList ++
    (commentText s).toList)))

lemma toList_metadataLine (label : String) (o : Option String) :
    '\n' :: (metadataLine label o).toList = metadataEntry label o ++ ['\n'] := by
  cases o <;> simp [metadataLine, metadataEntry]

lemma newline_not_mem_commentText {s : String} (h : '\n' ∉ s.toList) :
    '\n' ∉ (commentText s).toList := by
  rw [commentText, String.toList_ofList]
  generalize s.toList = cs at h
  fun_induction guardComment cs <;> simp_all

lemma apart_metadataEntry {label : String} {o : Option String} (hlabel : '\n' ∉ label.toList)
    (h : ∀ s ∈ o, '\n' ∉ s.toList) : Apart ['\n', '\n'] (metadataEntry label o) := by
  cases o with
  | none => exact apart_nil _
  | some s =>
    refine apart_line ?_ (by simp) (by simp)
    simpa using ⟨hlabel, newline_not_mem_commentText (h s rfl)⟩

lemma Metadata.isParagraph {m : Metadata} (hname : ∀ s ∈ m.packageName, '\n' ∉ s.toList)
    (hversion : ∀ s ∈ m.packageVersion, '\n' ∉ s.toList) : IsParagraph m.text.toList := by
  refine ⟨"/**".toList ++ (metadataEntry "Package" m.packageName ++
    (metadataEntry "Version" m.packageVersion ++ "\n */".toList)), ?_,
    ⟨'/', _, rfl, by decide⟩, ?_⟩
  · have hpackage := toList_metadataLine "Package" m.packageName
    have hversion := toList_metadataLine "Version" m.packageVersion
    calc m.text.toList
        = "/**".toList ++ (('\n' :: (metadataLine "Package" m.packageName).toList) ++
            ((metadataLine "Version" m.packageVersion).toList ++ " */\n".toList)) := by
          simp [Metadata.text]
      _ = "/**".toList ++ (metadataEntry "Package" m.packageName ++
            (('\n' :: (metadataLine "Version" m.packageVersion).toList) ++ " */\n".toList)) := by
          rw [hpackage]
          simp
      _ = _ := by
          rw [hversion]
          simp
  · exact .append (by decide) ((apart_metadataEntry (by decide) hname).append
      ((apart_metadataEntry (by decide) hversion).append (by decide)))

end Schema

/-! ### Documents -/

open Schema (Expr Definition Metadata objectText fieldsText catchallText)
open Text (LaidOut IsParagraph laidOut_intercalate)

namespace Selection

variable {s : Selection} {o : Options} {d : Definition}

/-- What is selected is defined, and nothing else. -/
lemma mem_names_definitions {n : String} :
    n ∈ (s.module o).definitions.map Definition.name ↔ n ∈ s.names := by
  rw [Schema.Module.definitions, List.map_append, List.mem_append, names_module_enums,
    names_module_models, DependencyGraph.mem_order_names, mem_names_dependencyGraph, or_comm]
  exact List.mem_append.symm

lemma name_mem_names (hd : d ∈ (s.module o).definitions) : d.name ∈ s.names :=
  mem_names_definitions.1 (List.mem_map_of_mem hd)

/-- What is defined refers to what is selected and to the class that is known. -/
lemma names_definition (hd : d ∈ (s.module o).definitions) {n : String} (hn : d.expr.Names n) :
    n = "Blob" ∨ n ∈ s.names := by
  have hsound : d.expr.Sound := by
    rcases List.mem_append.1 hd with hd | hd
    · obtain ⟨e, -, rfl⟩ := List.mem_map.1 hd
      exact e.sound_expr
    · exact (sound_defineModels _ _ d hd).1
  refine (hsound.names hn).imp_right ?_
  rintro ⟨x, hx, rfl⟩
  obtain ⟨other, hother, hname⟩ := List.mem_map.1 (mention_declared hd hx)
  exact hname ▸ name_mem_names hother

end Selection

namespace Namespace

variable (root : Namespace) (o : Options)

/-- The sections of a document: the import, the package data if there are any, the enums as they
were found, and the models, dependencies first. -/
def sections : List String :=
  ["import \x7b z \x7d from \"zod\";\n"] ++ o.metadata.toList.map Metadata.text ++
    root.selection.enums.map (fun e => Definition.text ⟨e.name, e.expr⟩) ++
    (defineModels root.selection.scope root.selection.dependencyGraph.order).map Definition.text

variable {root o}

lemma length_sections : (root.sections o).length =
    1 + (if o.packageName.isSome ∨ o.packageVersion.isSome then 1 else 0) +
      root.selection.enums.length + root.selection.models.length := by
  have hmodels : (defineModels root.selection.scope root.selection.dependencyGraph.order).length =
      root.selection.models.length := by
    rw [(Selection.forall₂_defineModels _ _).length_eq]
    exact (Selection.perm_order root.nodup_selection).length_eq
  have hmetadata : o.metadata.toList.length =
      if o.packageName.isSome ∨ o.packageVersion.isSome then 1 else 0 := by
    unfold Options.metadata
    cases o.packageName <;> cases o.packageVersion <;> rfl
  simp only [sections, List.length_append, List.length_map, List.length_singleton, hmetadata,
    hmodels]

lemma sections_eq : root.sections o = Schema.Import.text zodImport ::
    (o.metadata.toList.map Metadata.text ++
      (root.selection.module o).definitions.map Definition.text) := by
  have himport : Schema.Import.text zodImport = "import \x7b z \x7d from \"zod\";\n" := rfl
  simp [sections, himport, Schema.Module.definitions, Selection.module, Function.comp_def]

lemma text_eq_sections :
    (root.selection.module o).text = "\n".intercalate (root.sections o) := by
  have hjoin : String.join ((root.selection.module o).imports.map Schema.Import.text) =
      Schema.Import.text zodImport := rfl
  have hsections : (root.selection.module o).sections = root.sections o := by
    rw [Schema.Module.sections, hjoin, sections_eq]
    rfl
  rw [Schema.Module.text, hsections]

lemma isParagraph_sections (hnames : ∀ n ∈ root.selection.names, '\n' ∉ n.toList)
    (hname : ∀ n ∈ o.packageName, '\n' ∉ n.toList)
    (hversion : ∀ v ∈ o.packageVersion, '\n' ∉ v.toList) :
    ∀ s ∈ root.sections o, IsParagraph s.toList := by
  rw [sections_eq, List.forall_mem_cons, List.forall_mem_append]
  refine ⟨Schema.isParagraph_import, ?_, ?_⟩
  · simp only [List.mem_map, Option.mem_toList]
    rintro s ⟨m, hm, rfl⟩
    obtain rfl : m = ⟨o.packageName, o.packageVersion⟩ := by
      unfold Options.metadata at hm
      split_ifs at hm
      exact (Option.some.inj hm).symm
    exact Metadata.isParagraph hname hversion
  · simp only [List.mem_map]
    rintro s ⟨d, hd, rfl⟩
    refine Definition.isParagraph (hnames _ (Selection.name_mem_names hd)) fun n hn => ?_
    rcases Selection.names_definition hd hn with rfl | hn
    · decide
    · exact hnames n hn

/-- **Document layout**: if no selected name and no package data has a line feed, a document is
its sections with one blank line between two of them. It ends with one line feed, no two blank
lines follow one another, and cutting it at its blank lines gives the sections in order. The
models are in the order in which they are defined. -/
theorem document_laidOut {text : String} (h : root.document o = some text)
    (hnames : ∀ n ∈ root.selection.names, '\n' ∉ n.toList)
    (hname : ∀ n ∈ o.packageName, '\n' ∉ n.toList)
    (hversion : ∀ v ∈ o.packageVersion, '\n' ∉ v.toList) :
    LaidOut ((root.sections o).map String.toList) text.toList ∧
    (root.sections o).length =
      1 + (if o.packageName.isSome ∨ o.packageVersion.isSome then 1 else 0) +
        root.selection.enums.length + root.selection.models.length := by
  simp only [document] at h
  split_ifs at h
  cases h
  rw [text_eq_sections]
  have hne : root.sections o ≠ [] := by simp [sections]
  exact ⟨(laidOut_intercalate hne (isParagraph_sections hnames hname hversion)).1,
    length_sections⟩

/-- An enum, a model that spreads over lines, and one that it refers to. Text that looks like a
blank line is in a key and in a value. -/
def shelf : Namespace where
  name := ""
  models := [
    { name := "Book",
      properties := [⟨"\n\n", .object [⟨"by", .model "Author" none, true⟩], false⟩] },
    { name := "Author", properties := [⟨"kind", .enum "Kind", false⟩] }]
  enums := [{ name := "Kind", members := [⟨"a", some (.string "\n\n")⟩] }]

def shelfOptions : Options := { packageName := some "shelf" }

theorem document_laidOut_shelf :
    ∃ text, shelf.document shelfOptions = some text ∧
      LaidOut ((shelf.sections shelfOptions).map String.toList) text.toList ∧
      (Text.occurrences ['\n', '\n'] text.toList).length = 4 ∧
      shelf.selection.dependencyGraph.order.map Model.name = ["Author", "Book"] ∧
      shelf.sections shelfOptions = [
        "import \x7b z \x7d from \"zod\";\n",
        "/**\n * Package: shelf\n */\n",
        "export const KindSchema = z.enum([\"\\n\\n\"]);\n",
        "export const AuthorSchema = z.object(\x7b\n  kind: KindSchema,\n\x7d);\n",
        "export const BookSchema = z.object(\x7b\n" ++
          "  \"\\n\\n\": z.object(\x7b\n" ++
          "    by: AuthorSchema.optional(),\n" ++
          "  \x7d),\n" ++
          "\x7d);\n"] := by
  have hdocument : shelf.document shelfOptions =
      some (shelf.selection.module shelfOptions).text := rfl
  have hnames : shelf.selection.names = ["Book", "Author", "Kind"] := rfl
  have hdefinitions : (shelf.selection.module shelfOptions).definitions = [
      ⟨"Kind", .enum ["\n\n"]⟩,
      ⟨"Author", .object [⟨"kind", .ref "Kind", false⟩] none⟩,
      ⟨"Book", .object [⟨"\n\n", .object [⟨"by", .ref "Author", true⟩] none, false⟩] none⟩] := rfl
  obtain ⟨hlaid, hlength⟩ := document_laidOut hdocument (by rw [hnames]; decide) (by decide)
    (by decide)
  refine ⟨_, hdocument, hlaid, ?_, by decide, ?_⟩
  · rw [hlaid.blank, List.length_map, hlength]
    rfl
  · rw [sections_eq, hdefinitions]
    -- The texts of expressions compute by their equations only, those around them by themselves.
    change [_, _, _ ++ Expr.text 0 _ ++ _, _ ++ Expr.text 0 _ ++ _, _ ++ Expr.text 0 _ ++ _] = _
    simp only [Expr.text, objectText, fieldsText, catchallText]
    rfl

end Namespace

end ZodGraph
