import ZodGraph.Proofs.Emission
import ZodGraph.Proofs.Path
import ZodGraph.Proofs.Schema.Document

/-!
Which files of a pass the store still holds when the pass is done. The files of a package go to
different paths and are kept. The module is kept unless its path is that of one of them: the file
of the package is written later and takes its place.
-/

namespace ZodGraph

/-! ### Paths below a directory -/

namespace Path

lemma split_slash (above below : String) :
    Text.split '/' (above ++ "/" ++ below) = Text.split '/' above ++ Text.split '/' below := by
  have hchars : (above ++ "/" ++ below).toList = above.toList ++ '/' :: below.toList := by simp
  unfold Text.split
  rw [hchars, Text.splitChars_append, List.map_append]

lemma isAbsolute_slash (above below : String) :
    isAbsolute (above ++ "/" ++ below) = isAbsolute (above ++ "/") := by
  unfold isAbsolute
  rcases h : above.toList with _ | ⟨c, cs⟩ <;> simp [h]

lemma not_isAbsolute_plain {name : String} (h : PlainName name) : ¬ isAbsolute name := by
  intro habs
  rcases hchars : name.toList with _ | ⟨c, cs⟩
  · simp [isAbsolute, hchars] at habs
  · obtain rfl : c = '/' := by simpa [isAbsolute, hchars] using habs
    exact h.2.2.2 (by simp [hchars])

lemma components_slash {name : String} (h : PlainName name) (above : String) :
    components (above ++ "/" ++ name) = components (above ++ "/") ++ [.name name] := by
  have hinner := innerComponent?_plain h
  have hnone : innerComponent? "" = none := by decide
  have hslash : Text.split '/' (above ++ "/") = Text.split '/' above ++ [""] := by
    have hsplit := split_slash above ""
    rwa [String.append_empty] at hsplit
  unfold components
  rw [isAbsolute_slash, split_slash, split_plain h, hslash]
  rcases hpieces : Text.split '/' above with _ | ⟨first, rest⟩
  · exact absurd (List.map_eq_nil_iff.1 hpieces) (Text.splitChars_ne_nil _ _)
  · simp [List.filterMap_append, hinner, hnone]

/-- A file name below a directory is its last component. -/
lemma exists_components_join (dir : String) :
    ∃ above, ∀ name, PlainName name → components (join dir name) = above ++ [.name name] := by
  by_cases hempty : dir = ""
  · refine ⟨[], fun name h => ?_⟩
    have hjoin : join dir name = name := by simp [join, hempty]
    have hdot : name ≠ "." := h.2.1
    rw [hjoin, components, split_plain h]
    simp [not_isAbsolute_plain h, hdot, innerComponent?_plain h]
  · by_cases hslash : dir.toList.getLast? = some '/'
    · -- the directory ends in a slash of its own
      obtain ⟨cs, hcs⟩ := List.getLast?_eq_some_iff.1 hslash
      have hdir : dir = String.ofList cs ++ "/" := by
        rw [← String.toList_inj, hcs]
        simp
      refine ⟨components dir, fun name h => ?_⟩
      have hjoin : join dir name = dir ++ name := by
        simp [join, not_isAbsolute_plain h, hempty, hslash]
      rw [hjoin, hdir, components_slash h]
    · refine ⟨components (dir ++ "/"), fun name h => ?_⟩
      have hjoin : join dir name = dir ++ "/" ++ name := by
        simp [join, not_isAbsolute_plain h, hempty, hslash]
      rw [hjoin, components_slash h]

lemma same_join_iff {a b : String} (ha : PlainName a) (hb : PlainName b) (dir : String) :
    Same (join dir a) (join dir b) ↔ a = b := by
  obtain ⟨above, habove⟩ := exists_components_join dir
  unfold Same
  rw [habove a ha, habove b hb]
  simp

end Path

lemma plainName_packageNames : ∀ n ∈ packageNames, Path.PlainName n := by decide

/-! ### Which text a file begins with -/

lemma head_unlines {line : String} {c : Char} (h : line.toList.head? = some c)
    (lines : List String) : (Package.unlines (line :: lines)).toList.head? = some c := by
  rcases hline : line.toList with _ | ⟨d, ds⟩
  · simp [hline] at h
  · obtain rfl : d = c := by simpa [hline] using h
    simp [Package.unlines, hline]

/-- No file of a package begins as a module does. -/
lemma Package.head_files (p : Package) (source : String) (schemas : List String) :
    ∀ f ∈ p.files source schemas, f.contents.toList.head? ≠ some 'i' := by
  have hmanifest : ((p.manifest source).pretty 0).toList.head? = some '\x7b' := by
    simp [manifest, Json.pretty]
  have hsettings : ((buildSettings source).pretty 0).toList.head? = some '\x7b' := by
    simp [buildSettings, Json.pretty]
  have htitle : ("# " ++ p.name).toList.head? = some '#' := by simp
  intro f hf
  simp only [files, List.mem_cons, List.not_mem_nil, or_false] at hf
  rcases hf with rfl | rfl | rfl | rfl
  · simp [head_unlines hmanifest]
  · simp [readme, readmeLines, head_unlines htitle]
  · simp [head_unlines hsettings]
  · decide

lemma Namespace.head_document {root : Namespace} {o : Options} {document : String}
    (h : root.document o = some document) : document.toList.head? = some 'i' := by
  obtain ⟨m, hm, rfl⟩ : ∃ m : Schema.Module, m.imports = [zodImport] ∧ m.text = document := by
    unfold Namespace.document at h
    obtain ⟨-, h⟩ := Option.ite_none_left_eq_some.1 h
    exact ⟨_, rfl, Option.some.inj h⟩
  have himport : zodImport.text.toList.head? = some 'i' := by decide
  rw [Schema.toList_moduleText hm, List.head?_append, himport]
  rfl

lemma Store.get?_congr (s : Store) {a b : String} (h : Path.Same a b) : s.get? a = s.get? b := by
  unfold Store.get?
  rw [show Path.components a = Path.components b from h]

/-- A file is kept if nothing is written to its path after it. -/
lemma Store.get?_kept (s : Store) (before : List File) {after : List File} {f : File}
    (h : ∀ g ∈ after, ¬ Path.Same g.path f.path) :
    (s.writeFiles (before ++ f :: after)).get? f.path = some f.contents := by
  have hsame : Path.Same f.path f.path := rfl
  rw [Store.get?_writeFiles, lastContents_of_last hsame h]
  rfl

namespace Emission.Pass

/-- A package is named in full, and the module has the path of one of its files. -/
def Overlaps (p : Pass) : Prop :=
  (p.options.packageName.isSome ∧ p.options.packageVersion.isSome) ∧
    ∃ n ∈ packageNames,
      Path.Same (Path.join p.directory n) (Path.join p.directory p.file)

instance (p : Pass) : Decidable p.Overlaps :=
  inferInstanceAs (Decidable (_ ∧ ∃ n ∈ packageNames, Path.Same _ _))

variable {p : Pass} {s : Store} {document : String}

/-- The document, and files of a package at paths of their own. -/
lemma plan_of_document (h : p.root.document p.options = some document) :
    ∃ added, p.plan = ⟨Path.join p.directory p.file, document⟩ :: added ∧
      added.map File.path =
        (if p.options.packageName.isSome ∧ p.options.packageVersion.isSome then packageNames
          else []).map (Path.join p.directory) ∧
      ∀ f ∈ added, f.contents.toList.head? ≠ some 'i' := by
  obtain ⟨schemas, hfiles⟩ := Namespace.files_of_document h
  refine ⟨((p.options.package?.map fun q => q.files p.options.file schemas).getD []).map
    fun f => { f with path := Path.join p.directory f.path }, ?_, ?_, ?_⟩
  · rw [plan_eq, hfiles]
    rfl
  · rw [← p.options.paths_package schemas]
    simp [Function.comp_def]
  · intro f hf
    obtain ⟨g, hg, rfl⟩ := List.mem_map.1 hf
    rcases hpackage : p.options.package? with _ | q
    · simp [hpackage] at hg
    · rw [hpackage] at hg
      exact q.head_files _ _ g hg

/-- The files of a package have paths of their own. -/
lemma pairwise_added {added : List File} {c : Prop} [Decidable c]
    (h : added.map File.path =
      (if c then packageNames else []).map (Path.join p.directory)) :
    added.Pairwise fun f g => ¬ Path.Same g.path f.path := by
  have hnodup : (if c then packageNames else []).Nodup := by
    split_ifs
    · decide
    · exact List.nodup_nil
  have hplain : ∀ n ∈ (if c then packageNames else []), Path.PlainName n := by
    intro n hn
    split_ifs at hn
    · exact plainName_packageNames n hn
    · simp at hn
  have hpaths : (added.map File.path).Pairwise fun a b => ¬ Path.Same b a := by
    rw [h, List.pairwise_map]
    refine hnodup.imp_of_mem fun ha hb hne hsame => hne ?_
    exact ((Path.same_join_iff (hplain _ hb) (hplain _ ha) _).1 hsame).symm
  exact List.pairwise_map.1 hpaths

/-- A file of the package is kept. -/
lemma get?_added (s : Store) (first : File) {f : File} {added : List File}
    (h : added.Pairwise fun f g => ¬ Path.Same g.path f.path) (hf : f ∈ added) :
    (s.writeFiles (first :: added)).get? f.path = some f.contents := by
  obtain ⟨before, after, rfl⟩ := List.append_of_mem hf
  rw [List.pairwise_append, List.pairwise_cons] at h
  obtain ⟨-, ⟨hafter, -⟩, -⟩ := h
  exact s.get?_kept (first :: before) hafter

/-- The document is kept exactly if no file of the package has its path. -/
lemma get?_document_iff (h : p.root.document p.options = some document) :
    (s.writeFiles p.plan).get? (Path.join p.directory p.file) = some document ↔
      ¬ p.Overlaps := by
  obtain ⟨added, hplan, hpaths, hheads⟩ := plan_of_document h
  rw [hplan]
  constructor
  · rintro hkept ⟨hpackage, n, hn, hsame⟩
    have hmem : Path.join p.directory n ∈ added.map File.path := by
      rw [hpaths, if_pos hpackage]
      exact List.mem_map_of_mem hn
    obtain ⟨f, hf, hpath⟩ := List.mem_map.1 hmem
    have hother := get?_added s ⟨Path.join p.directory p.file, document⟩
      (pairwise_added hpaths) hf
    rw [hpath, Store.get?_congr _ hsame] at hother
    -- the texts differ in their first character
    obtain rfl : document = f.contents := Option.some.inj (hkept.symm.trans hother)
    exact hheads f hf (Namespace.head_document h)
  · intro hapart
    refine s.get?_kept [] fun g hg hsame => hapart ?_
    have hmem : g.path ∈ added.map File.path := List.mem_map_of_mem hg
    rw [hpaths] at hmem
    obtain ⟨n, hn, hpath⟩ := List.mem_map.1 hmem
    split_ifs at hn with hpackage
    · exact ⟨hpackage, n, hn, hpath ▸ hsame⟩
    · simp at hn

/-- A pass that reports paths has made all the writes it planned. -/
lemma of_written {paths : List String} (h : (p.run s).1.outcome = .ok (.written paths)) :
    paths = p.plan.map File.path ∧ (p.run s).2 = s.writeFiles p.plan ∧ p.plan ≠ [] := by
  have hrefuse : ∀ k, p.refuse = some k → p.plan.length ≤ k := by
    intro k hk
    by_contra hlt
    obtain ⟨f, hf⟩ : ∃ f, p.plan[k]? = some f := ⟨_, List.getElem?_eq_getElem (by omega)⟩
    obtain ⟨herror, -, -⟩ := p.outcome_of_refused s hk hf
    rw [herror] at h
    simp at h
  have hplan : p.plan ≠ [] := by
    intro hnil
    obtain ⟨hnothing, -⟩ := p.outcome_of_plan_nil s hnil
    rw [hnothing] at h
    simp at h
  obtain ⟨hwritten, hstore, -⟩ := p.outcome_of_not_refused s hplan hrefuse
  rw [hwritten] at h
  obtain rfl : p.plan.map File.path = paths := by simpa using h
  exact ⟨rfl, hstore, hplan⟩

lemma document_of_plan (h : p.plan ≠ []) :
    ∃ document, p.root.document p.options = some document := by
  refine Namespace.exists_document fun hempty => h ?_
  exact plan_of_isEmpty hempty

/-- Where paths overlap, the store does not hold the first file under its path. -/
lemma exists_lost {paths : List String} (h : (p.run s).1.outcome = .ok (.written paths))
    (hoverlaps : p.Overlaps) :
    ∃ f path, (p.root.files p.options)[0]? = some f ∧ paths[0]? = some path ∧
      (p.run s).2.get? path ≠ some f.contents := by
  obtain ⟨rfl, hstore, hplan⟩ := of_written h
  obtain ⟨document, hdocument⟩ := document_of_plan hplan
  obtain ⟨schemas, hfiles⟩ := Namespace.files_of_document hdocument
  refine ⟨⟨p.file, document⟩, Path.join p.directory p.file, ?_, ?_, ?_⟩
  · rw [hfiles]
    rfl
  · rw [paths_plan hdocument]
    rfl
  · rw [hstore]
    exact (get?_document_iff hdocument).not.2 (not_not.2 hoverlaps)

/-- **What a pass leaves**: it reports one path for each file, and under its path the store holds
every file of the package. It holds the module under the module's path unless this is also the
path of a file of the package, which is written later. -/
theorem written_files_kept (p : Pass) (s : Store) (paths : List String)
    (h : (p.run s).1.outcome = .ok (.written paths)) :
    paths = (p.root.files p.options).map (fun f => Path.join p.directory f.path) ∧
    (∀ i f path, (p.root.files p.options)[i]? = some f → paths[i]? = some path →
      (i = 0 → ¬ p.Overlaps) → (p.run s).2.get? path = some f.contents) ∧
    ∃ document, p.root.document p.options = some document ∧
      ((p.run s).2.get? (Path.join p.directory p.file) = some document ↔
        ¬ p.Overlaps) := by
  obtain ⟨rfl, hstore, hplan⟩ := of_written h
  obtain ⟨document, hdocument⟩ := document_of_plan hplan
  have hdocument_kept := get?_document_iff (s := s) hdocument
  obtain ⟨added, hfiles, hpaths, -⟩ := plan_of_document hdocument
  rw [hstore]
  refine ⟨by simp [plan_eq, Function.comp_def], ?_,
    document, hdocument, hdocument_kept⟩
  intro i f path hf hpath hfirst
  have hwritten : p.plan[i]? = some { f with path := Path.join p.directory f.path } := by
    simp [plan_eq, hf]
  obtain rfl : path = Path.join p.directory f.path := by
    rw [List.getElem?_map, hwritten] at hpath
    exact (Option.some.inj hpath).symm
  rw [hfiles] at hwritten ⊢
  cases i with
  | zero =>
    obtain ⟨hsame, rfl⟩ : Path.join p.directory p.file = Path.join p.directory f.path ∧
        document = f.contents := by simpa using hwritten
    rw [← hsame, ← hfiles]
    exact hdocument_kept.2 (hfirst rfl)
  | succ i =>
    rw [List.getElem?_cons_succ] at hwritten
    have hkept := get?_added s ⟨Path.join p.directory p.file, document⟩
      (pairwise_added hpaths) (List.mem_of_getElem? hwritten)
    exact hkept

/-- A package with its module in the given file. -/
def packaged (file : String) : Pass where
  root := { name := "", models := [{ name := "Item" }] }
  options := { outputFile := some file, packageName := some "items",
               packageVersion := some "1.0.0" }
  host := "out"

lemma plan_packaged_ne_nil (file : String) : (packaged file).plan ≠ [] := by
  have hlength : (packaged file).plan.length = 5 := rfl
  intro hnil
  simp [hnil] at hlength

lemma outcome_packaged (file : String) : ((packaged file).run {}).1.outcome =
    .ok (.written ((packaged file).plan.map File.path)) := by
  have hrefuse : ∀ k, (packaged file).refuse = some k → (packaged file).plan.length ≤ k := by
    intro k hk
    simp [packaged] at hk
  exact ((packaged file).outcome_of_not_refused {} (plan_packaged_ne_nil file) hrefuse).1

theorem written_files_kept_packaged :
    ((packaged "items.ts").run {}).1.outcome =
      .ok (.written ((packaged "items.ts").plan.map File.path)) ∧
    ¬ (packaged "items.ts").Overlaps ∧
    ∃ document, (packaged "items.ts").root.document (packaged "items.ts").options =
        some document ∧
      ((packaged "items.ts").run {}).2.get? "out/items.ts" = some document := by
  have hapart : ¬ (packaged "items.ts").Overlaps := by decide +kernel
  obtain ⟨-, -, document, hdocument, hkept⟩ :=
    written_files_kept (packaged "items.ts") {} _ (outcome_packaged "items.ts")
  have hpath : Path.join (packaged "items.ts").directory (packaged "items.ts").file =
      "out/items.ts" := by decide
  rw [hpath] at hkept
  exact ⟨outcome_packaged "items.ts", hapart, document, hdocument, hkept.2 hapart⟩

/-- With its module in `README.md`, a package has lost the module when the pass is done: the usage
notes of the package are written over it. -/
theorem module_lost_to_readme :
    ((packaged "README.md").run {}).1.outcome =
      .ok (.written ((packaged "README.md").plan.map File.path)) ∧
    ∃ f path, ((packaged "README.md").root.files (packaged "README.md").options)[0]? = some f ∧
      ((packaged "README.md").plan.map File.path)[0]? = some path ∧
      ((packaged "README.md").run {}).2.get? path ≠ some f.contents := by
  have hoverlaps : (packaged "README.md").Overlaps := ⟨⟨rfl, rfl⟩, "README.md", by decide, rfl⟩
  exact ⟨outcome_packaged _, exists_lost (outcome_packaged _) hoverlaps⟩

end Emission.Pass

end ZodGraph
