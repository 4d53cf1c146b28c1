import ZodGraph.Package
import ZodGraph.Proofs.Json.Printer
import ZodGraph.Proofs.Path

/-!
The files of a package that hold JSON. Whatever characters are in the name, the version and the
file of the module, both files are JSON and are read back as what they were written from.
-/

namespace ZodGraph.Package

open Json (Numberless)

/-- The text is that of a JSON object with these entries, on lines of its own. -/
structure HoldsObject (text : String) (entries : List (String × Json)) : Prop where
  /-- The text ends with one line feed. -/
  ends : ['\n'] <:+ text.toList ∧ ¬ ['\n', '\n'] <:+ text.toList
  spells : Json.Spells text (.obj entries)
  reads : Json.FromText.run Json.value text = .ok (.obj entries)
  distinct : (entries.map Prod.fst).Nodup

lemma toList_unlines_singleton (line : String) :
    (unlines [line]).toList = line.toList ++ ['\n'] := by
  simp [unlines]

lemma holdsObject_pretty {e : String × Json} {es : List (String × Json)}
    (h : Numberless (.obj (e :: es)))
    (hdepth : (Json.obj (e :: es)).depth ≤ Json.FromText.depthLimit)
    (hdistinct : ((e :: es).map Prod.fst).Nodup) :
    HoldsObject (unlines [(Json.obj (e :: es)).pretty 0]) (e :: es) := by
  have hspells : Json.Spells (unlines [(Json.obj (e :: es)).pretty 0]) (.obj (e :: es)) :=
    ⟨_, ['\n'], toList_unlines_singleton _, Json.denotes_pretty h 0,
      by simp [Json.Blanks, Json.isBlank]⟩
  refine ⟨?_, hspells, Json.run_value_of_spells hspells hdepth, hdistinct⟩
  -- the bracket that closes the object stands before the line feed
  obtain ⟨front, hfront⟩ : ∃ front, (unlines [(Json.obj (e :: es)).pretty 0]).toList =
      front ++ ['\x7d', '\n'] := by
    rw [toList_unlines_singleton, Json.pretty, String.toList_append]
    exact ⟨_, List.append_assoc _ _ _⟩
  rw [hfront]
  refine ⟨⟨front ++ ['\x7d'], by simp⟩, fun htwo => ?_⟩
  have hend := List.suffix_of_suffix_length_le htwo (List.suffix_append front _) (le_refl _)
  exact absurd hend (by decide)

lemma buildStem_spec (source : String) : Path.HasStem source (buildStem source) ∨
    (∀ stem, ¬ Path.HasStem source stem) ∧ buildStem source = "index" := by
  unfold buildStem
  rcases hstem : Path.stem? source with _ | stem
  · refine Or.inr ⟨fun stem h => ?_, rfl⟩
    rw [Path.stem?_eq_some_iff.2 h] at hstem
    cases hstem
  · exact Or.inl (Path.stem?_eq_some_iff.1 hstem)

/-- **The JSON files of a package survive any text.** The manifest and the build settings end with
one line feed, are JSON, and are read back as objects without a repeated key. In the manifest
stand the name, the version and what is made of them; the files to be built are named for the stem
of the module's file, or `index` where it has none. The settings include the module's file and
nothing else. -/
theorem json_files_read_back (p : Package) (source : String) (schemas : List String) :
    ∃ manifest readme settings ignored stem,
      p.files source schemas = [⟨"package.json", manifest⟩, ⟨"README.md", readme⟩,
        ⟨"tsconfig.json", settings⟩, ⟨".npmignore", ignored⟩] ∧
      (Path.HasStem source stem ∨ (∀ other, ¬ Path.HasStem source other) ∧ stem = "index") ∧
      (∃ entries, HoldsObject manifest entries ∧
        ("name", .str p.name) ∈ entries ∧
        ("version", .str p.version) ∈ entries ∧
        ("description", .str ("Zod validators for " ++ p.name)) ∈ entries ∧
        ("main", .str ("dist/" ++ stem ++ ".js")) ∈ entries ∧
        ("types", .str ("dist/" ++ stem ++ ".d.ts")) ∈ entries) ∧
      ∃ entries, HoldsObject settings entries ∧ ("include", .arr [.str source]) ∈ entries := by
  have hroom : ∀ n ≤ 2, n ≤ Json.FromText.depthLimit := by decide
  refine ⟨_, _, _, _, buildStem source, rfl, buildStem_spec source, ?manifest, ?settings⟩
  case manifest =>
    refine ⟨_, holdsObject_pretty ?_ (hroom _ ?_) ?_, ?_⟩
    · simp
    · simp [Json.depth, Json.depthEntries, Json.depthItems]
    · simp
    · simp [buildDir]
  case settings =>
    refine ⟨_, holdsObject_pretty ?_ (hroom _ ?_) ?_, ?_⟩
    · simp
    · simp [Json.depth, Json.depthEntries, Json.depthItems]
    · simp
    · simp

end ZodGraph.Package
