import ZodGraph.Emission
import ZodGraph.Proofs.Schema.Exports

/-!
The usage notes of a package list the schemas that its module exports, in the same order and
without others, and their example uses the first of them.
-/

namespace ZodGraph

namespace Package

open Text

/-! ### Reading the notes -/

/-- What stands between a beginning and an end of a line. -/
def between? (start stop line : String) : Option String :=
  ((start.toList.isPrefixOf? line.toList).bind fun rest =>
    stop.toList.isSuffixOf? rest).map String.ofList

/-- The names in list items, in the order of the lines. -/
def listed (notes : String) : List String := (split '\n' notes).filterMap (between? "- `" "`")

/-- The schemas that values are checked against, in the order of the lines. -/
def used (notes : String) : List String :=
  (split '\n' notes).filterMap (between? "const result = schemas." ".safeParse(input);")

section between?

variable {start stop line s : String}

lemma between?_eq_some_iff : between? start stop line = some s ↔ line = start ++ s ++ stop := by
  simp only [between?, Option.map_eq_some_iff, Option.bind_eq_some_iff,
    List.isPrefixOf?_eq_some_iff_append_eq, List.isSuffixOf?_eq_some_iff_append_eq]
  constructor
  · rintro ⟨cs, ⟨rest, hline, rfl⟩, rfl⟩
    rw [← String.toList_inj, ← hline]
    simp
  · rintro rfl
    exact ⟨s.toList, ⟨s.toList ++ stop.toList, by simp, rfl⟩, String.ofList_toList⟩

/-- Lines of another form can be left out. -/
lemma filterMap_between? {keep : String → Bool} (h : ∀ s, keep (start ++ s ++ stop) = true)
    (lines : List String) : lines.filterMap (between? start stop) =
      (lines.filter keep).filterMap (between? start stop) := by
  rw [List.filterMap_filter]
  refine List.filterMap_congr fun line _ => ?_
  rcases hline : between? start stop line with _ | s
  · simp
  · have hkeep : keep line = true := by rw [between?_eq_some_iff.1 hline, h]
    rw [if_pos hkeep]

/-- A line is not of a form that begins with another character. -/
lemma between?_eq_none (h : line.toList.head? ≠ start.toList.head?) (hstart : start ≠ "") :
    between? start stop line = none := by
  rw [Option.eq_none_iff_forall_ne_some]
  intro s hs
  obtain ⟨c, cs, hcs⟩ := List.exists_cons_of_ne_nil (mt String.toList_eq_nil_iff.1 hstart)
  rw [between?_eq_some_iff.1 hs] at h
  simp [hcs] at h

end between?

/-! ### The lines of the notes -/

lemma split_unlines {lines : List String} (h : ∀ line ∈ lines, '\n' ∉ line.toList) :
    split '\n' (unlines lines) = lines ++ [""] := by
  induction lines with
  | nil => rfl
  | cons line lines ih =>
    obtain ⟨hline, hlines⟩ := List.forall_mem_cons.1 h
    have htext : unlines (line :: lines) = "\n".intercalate [line, unlines lines] := by
      simp [unlines, String.intercalate_cons_cons]
    rw [htext, split_intercalate rfl (by simp), List.flatMap_cons, List.flatMap_singleton,
      split_of_not_mem hline, ih hlines]
    rfl

/-- The line begins as a list item or as the example does. -/
def isMarked (line : String) : Bool :=
  line.toList.head? = some '-' || line.toList.head? = some 'c'

def itemLine (schema : String) : String := "- `" ++ schema ++ "`"

def exampleLine (schema : String) : String :=
  "const result = schemas." ++ schema ++ ".safeParse(input);"

lemma head?_itemLine (s : String) : (itemLine s).toList.head? = some '-' := by
  unfold itemLine
  simp

lemma head?_exampleLine (s : String) : (exampleLine s).toList.head? = some 'c' := by
  unfold exampleLine
  simp

section readmeLines

variable {p : Package} {source : String} {schemas : List String}

lemma filter_schemaLines : (schemaLines schemas).filter isMarked = schemas.map itemLine := by
  unfold schemaLines itemLine
  split_ifs with hempty
  · simp [List.isEmpty_iff.1 hempty]
  · simp [isMarked, List.filter_map, Function.comp_def]

lemma filter_readmeLines : (p.readmeLines source schemas).filter isMarked =
    exampleLine (exampleSchema schemas) :: schemas.map itemLine := by
  unfold exampleLine
  simp [readmeLines, filter_schemaLines, isMarked]

lemma newline_not_mem_exampleSchema (h : ∀ s ∈ schemas, '\n' ∉ s.toList) :
    '\n' ∉ (exampleSchema schemas).toList := by
  cases schemas with
  | nil => decide
  | cons s schemas =>
    rw [exampleSchema]
    split_ifs
    · decide
    · exact h s List.mem_cons_self

lemma newline_not_mem_readmeLines (hname : '\n' ∉ p.name.toList)
    (hversion : '\n' ∉ p.version.toList) (hsource : '\n' ∉ source.toList)
    (h : ∀ s ∈ schemas, '\n' ∉ s.toList) :
    ∀ line ∈ p.readmeLines source schemas, '\n' ∉ line.toList := by
  have hschemas : ∀ line ∈ schemaLines schemas, '\n' ∉ line.toList := by
    unfold schemaLines
    split_ifs
    · simp
    · simpa [or_imp, forall_and] using h
  simp only [readmeLines, List.forall_mem_append, List.forall_mem_cons]
  simpa [hname, hversion, hsource, newline_not_mem_exampleSchema h, buildDir] using hschemas

section

variable (hname : '\n' ∉ p.name.toList) (hversion : '\n' ∉ p.version.toList)
  (hsource : '\n' ∉ source.toList) (h : ∀ s ∈ schemas, '\n' ∉ s.toList)

include hname hversion hsource h

/-- Any form of line that is marked is found at the example or at a list item. -/
lemma filterMap_readme {start stop : String} (hmark : ∀ s, isMarked (start ++ s ++ stop) = true) :
    (split '\n' (p.readme source schemas)).filterMap (between? start stop) =
      (exampleLine (exampleSchema schemas) :: schemas.map itemLine).filterMap
        (between? start stop) := by
  have hend : [""].filter isMarked = [] := by decide
  rw [readme, split_unlines (newline_not_mem_readmeLines hname hversion hsource h),
    filterMap_between? hmark, List.filter_append, filter_readmeLines, hend, List.append_nil]

lemma listed_readme : listed (p.readme source schemas) = schemas := by
  have hitem (s : String) : between? "- `" "`" (itemLine s) = some s :=
    between?_eq_some_iff.2 rfl
  have hexample (s : String) : between? "- `" "`" (exampleLine s) = none :=
    between?_eq_none (by rw [head?_exampleLine]; decide) (by decide)
  rw [listed, filterMap_readme hname hversion hsource h (by simp [isMarked]),
    List.filterMap_cons_none (hexample _), List.filterMap_map]
  simp [hitem]

lemma used_readme : used (p.readme source schemas) = [exampleSchema schemas] := by
  have hitem (s : String) :
      between? "const result = schemas." ".safeParse(input);" (itemLine s) = none :=
    between?_eq_none (by rw [head?_itemLine]; decide) (by decide)
  have hexample (s : String) :
      between? "const result = schemas." ".safeParse(input);" (exampleLine s) = some s :=
    between?_eq_some_iff.2 rfl
  rw [used, filterMap_readme hname hversion hsource h (by simp [isMarked]),
    List.filterMap_cons_some (hexample _), List.filterMap_map]
  simp [hitem]

end

end readmeLines

end Package

lemma Selection.definitions_ne_nil {s : Selection} (o : Options) (h : s.isEmpty = false) :
    (s.module o).definitions ≠ [] := by
  have hnames : s.names ≠ [] := by
    simpa [Selection.isEmpty, Selection.names, List.isEmpty_iff, ← not_and_or] using h
  obtain ⟨n, hn⟩ := List.exists_mem_of_ne_nil _ hnames
  intro hnil
  have hdefined := (mem_names_definitions (o := o)).2 hn
  simp [hnil] at hdefined

namespace Namespace

open Package (listed used)
open Schema (exports identifier plainName)

/-- **The notes document the exports.** With package data, if the selected names are plain and
neither the package data nor the file's name has a line feed, the notes list what the lines of
the document export, in the same order. That is one constant for each definition. The example in
the notes uses the first. -/
theorem readme_documents_exports (root : Namespace) (o : Options) {name version : String}
    (hempty : root.selection.isEmpty = false)
    (hname : o.packageName = some name) (hversion : o.packageVersion = some version)
    (hplain : ∀ n ∈ root.selection.names, plainName n = true)
    (hname' : '\n' ∉ name.toList) (hversion' : '\n' ∉ version.toList)
    (hfile : '\n' ∉ o.file.toList) :
    ∃ document manifest readme settings ignored first others,
      root.files o = [⟨o.file, document⟩, ⟨"package.json", manifest⟩, ⟨"README.md", readme⟩,
        ⟨"tsconfig.json", settings⟩, ⟨".npmignore", ignored⟩] ∧
      exports document = first :: others ∧ listed readme = first :: others ∧
      used readme = [first] ∧
      (root.selection.module o).definitions.map (fun d => identifier d.name) = first :: others := by
  have hpackage : o.package? = some ⟨name, version⟩ := by
    simp [Options.package?, hname, hversion]
  have hnewline : ∀ s ∈ (root.selection.module o).definitions.map fun d => identifier d.name,
      '\n' ∉ s.toList := by
    rw [List.forall_mem_map]
    intro d hd
    exact Schema.newline_not_mem_plainName
      (Schema.plainName_identifier (hplain _ (Selection.name_mem_names hd)))
  obtain ⟨d, ds, hds⟩ := List.exists_cons_of_ne_nil (Selection.definitions_ne_nil o hempty)
  have hexample : Package.exampleSchema ((d :: ds).map fun d => identifier d.name) =
      identifier d.name := if_neg (by simp [identifier])
  have hexports := exports_module hname hversion hplain hname' hversion'
  have hlisted := Package.listed_readme (p := ⟨name, version⟩) hname' hversion' hfile hnewline
  have hused := Package.used_readme (p := ⟨name, version⟩) hname' hversion' hfile hnewline
  rw [hds] at hexports hlisted hused
  rw [hexample] at hused
  have hfiles : root.files o = ⟨o.file, (root.selection.module o).text⟩ ::
      Package.files ⟨name, version⟩ o.file ((d :: ds).map fun d => identifier d.name) := by
    simp [files, hempty, hpackage, hds]
  exact ⟨_, _, _, _, _, _, _, hfiles, hexports, hlisted, hused, by rw [hds, List.map_cons]⟩

/-- Names and values that look like lines of the two texts. -/
def ledger : Namespace where
  name := ""
  models := [
    { name := "Entry",
      properties :=
        [⟨"\nexport const Fake = ", .object [⟨"by", .model "Owner" none, true⟩], false⟩] },
    { name := "Owner", properties := [⟨"kind", .enum "Kind", false⟩] }]
  enums := [{ name := "Kind", members := [⟨"a", some (.string "\n- `Fake`\n")⟩] }]

def ledgerOptions : Options :=
  { packageName := some "- `Fake`", packageVersion := some "export const Fake = 1" }

theorem readme_documents_exports_ledger :
    ∃ document manifest readme settings ignored,
      ledger.files ledgerOptions = [⟨"schemas.ts", document⟩, ⟨"package.json", manifest⟩,
        ⟨"README.md", readme⟩, ⟨"tsconfig.json", settings⟩, ⟨".npmignore", ignored⟩] ∧
      exports document = ["KindSchema", "OwnerSchema", "EntrySchema"] ∧
      listed readme = ["KindSchema", "OwnerSchema", "EntrySchema"] ∧
      used readme = ["KindSchema"] := by
  have hnames : ledger.selection.names = ["Entry", "Owner", "Kind"] := rfl
  have hschemas : (ledger.selection.module ledgerOptions).definitions.map
      (fun d => identifier d.name) = ["KindSchema", "OwnerSchema", "EntrySchema"] := by decide
  obtain ⟨document, manifest, readme, settings, ignored, first, others, hfiles, hexports, hlisted,
    hused, hall⟩ := readme_documents_exports ledger ledgerOptions rfl rfl rfl
      (by rw [hnames]; decide) (by decide) (by decide) (by decide)
  obtain ⟨rfl, rfl⟩ := List.cons.inj (hschemas.symm.trans hall)
  exact ⟨document, manifest, readme, settings, ignored, hfiles, hexports, hlisted, hused⟩

end Namespace

end ZodGraph
