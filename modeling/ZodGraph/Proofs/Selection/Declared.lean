import ZodGraph.Proofs.Selection

/-!
The selection of a graph without a walk that remembers anything. List every declaration with the
names of the namespaces around it, drop those inside the framework, drop those that may have no
validator, and keep the first of each name.
-/

namespace ZodGraph

inductive Declaration where
  | model (decl : Model)
  | enum (decl : Enumeration)

namespace Declaration

def name : Declaration → String
  | model m => m.name
  | enum e => e.name

def model? : Declaration → Option Model
  | model m => some m
  | enum _ => none

def enum? : Declaration → Option Enumeration
  | model _ => none
  | enum e => some e

/-- The declaration may have a validator. -/
def Eligible : Declaration → Prop
  | model m =>
    ¬ (m.intrinsic ∨ m.indexer.isSome ∧ (m.name = "Array" ∨ m.name = "Record")) ∧
      m.origin ≠ .library ∧ m.templateParameters = []
  | enum e => e.origin ≠ .library

instance : DecidablePred Eligible
  | model m =>
    inferInstanceAs (Decidable (¬ (m.intrinsic ∨ m.indexer.isSome ∧
      (m.name = "Array" ∨ m.name = "Record")) ∧ m.origin ≠ .library ∧ m.templateParameters = []))
  | enum e => inferInstanceAs (Decidable (e.origin ≠ .library))

end Declaration

def Selection.Holds (s : Selection) : Declaration → Prop
  | .model m => m ∈ s.models
  | .enum e => e ∈ s.enums

mutual

/-- Everything declared in a namespace and below it, each with the names of the namespaces
around it, the outermost first. -/
def Namespace.declarations (outer : List String) : Namespace → List (List String × Declaration)
  | ⟨name, entries, models, enums⟩ =>
    let trail := outer ++ [name]
    models.map (fun m => (trail, .model m)) ++ enums.map (fun e => (trail, .enum e)) ++
      entryDeclarations trail entries

def entryDeclarations (trail : List String) :
    List (EntryOf Namespace) → List (List String × Declaration)
  | [] => []
  | .child ns :: es => ns.declarations trail ++ entryDeclarations trail es
  | .malformed _ :: es => entryDeclarations trail es

end

/-- The first name on the way that is not empty is the framework's. -/
def InFramework (trail : List String) : Prop :=
  trail.find? (· ≠ "") = some "TypeSpec"

instance : DecidablePred InFramework := fun trail =>
  inferInstanceAs (Decidable (trail.find? (· ≠ "") = some "TypeSpec"))

namespace Namespace

/-- The declarations outside the framework. -/
def visible (root : Namespace) : List Declaration :=
  ((root.declarations []).filter fun d => ¬ InFramework d.1).map Prod.snd

/-- The first of each name among the declarations that may have a validator. -/
def chosen (root : Namespace) : List Declaration :=
  (root.visible.filter fun d => d.Eligible).eraseDupsBy fun a b => a.name == b.name

end Namespace

/-! ### Paths and their names -/

/-- The path that namespaces of these names lead to. -/
def pathOf (trail : List String) : String := trail.foldl qualify ""

lemma pathOf_snoc (trail : List String) (name : String) :
    pathOf (trail ++ [name]) = qualify (pathOf trail) name := by
  simp [pathOf]

lemma pathOf_eq_empty {trail : List String} (h : trail.find? (· ≠ "") = none) :
    pathOf trail = "" := by
  have hall : ∀ n ∈ trail, n = "" := by simpa using h
  induction trail with
  | nil => rfl
  | cons n trail ih =>
    obtain rfl : n = "" := hall n (by simp)
    exact ih (by simpa using h) fun k hk => hall k (by simp [hk])

/-- A path without a dot is the first name that is not empty. -/
lemma pathOf_eq_first {trail : List String} (h : '.' ∉ (pathOf trail).toList) :
    pathOf trail = (trail.find? (· ≠ "")).getD "" := by
  induction trail using List.reverseRecOn with
  | nil => rfl
  | append_singleton trail name ih =>
    rw [pathOf_snoc] at h ⊢
    unfold qualify at h ⊢
    split_ifs at h ⊢ with hname hparent
    · obtain rfl : name = "" := by simpa using hname
      simpa [List.find?_append] using ih h
    · -- nothing but empty names so far
      have hnone : trail.find? (· ≠ "") = none := by
        have hpath : pathOf trail = "" := by simpa using hparent
        rw [hpath] at ih
        rcases hfind : trail.find? (· ≠ "") with _ | n
        · rfl
        · have hn : n ≠ "" := by simpa using List.find?_some hfind
          rw [hfind] at ih
          exact absurd (ih (by simp)).symm hn
      have hne : name ≠ "" := by simpa using hname
      rw [List.find?_append, hnone]
      simp [hne]
    · simp at h

lemma InFramework.append {trail : List String} (h : InFramework trail) (more : List String) :
    InFramework (trail ++ more) := by
  unfold InFramework at h ⊢
  simp only [List.find?_append, h, Option.some_or]

/-- Outside the framework, the path tells whether a namespace is the framework's. -/
lemma pathOf_eq_framework_iff {trail : List String} {name : String} (h : ¬ InFramework trail) :
    pathOf (trail ++ [name]) = frameworkPath ↔ InFramework (trail ++ [name]) := by
  constructor
  · intro hpath
    have hdot : '.' ∉ (pathOf (trail ++ [name])).toList := by
      rw [hpath]
      decide
    have hfirst := pathOf_eq_first hdot
    rw [hpath] at hfirst
    unfold InFramework
    rcases hfind : (trail ++ [name]).find? (· ≠ "") with _ | n
    · rw [hfind] at hfirst
      exact absurd hfirst (by decide)
    · rw [hfind] at hfirst
      rw [show n = frameworkPath from hfirst.symm, frameworkPath]
  · intro hin
    unfold InFramework at h hin
    rw [List.find?_append] at hin
    rcases hfind : trail.find? (· ≠ "") with _ | n
    · rw [hfind, Option.none_or] at hin
      obtain rfl : "TypeSpec" = name := by simpa using List.mem_of_find?_eq_some hin
      rw [pathOf_snoc, pathOf_eq_empty hfind]
      decide
    · rw [hfind, Option.some_or] at hin
      exact absurd (hfind.trans hin) h

/-! ### The walk -/

/-- Inside the framework everything is dropped. -/
lemma filter_eq_nil_of_inFramework {ds : List (List String × Declaration)}
    (h : ∀ d ∈ ds, InFramework d.1) : (ds.filter fun d => ¬ InFramework d.1) = [] := by
  simpa using h

mutual

lemma Namespace.inFramework_declarations {outer : List String} (ns : Namespace)
    (h : InFramework (outer ++ [ns.name])) : ∀ d ∈ ns.declarations outer, InFramework d.1 := by
  obtain ⟨name, entries, models, enums⟩ := ns
  intro d hd
  simp only [Namespace.declarations, List.mem_append, List.mem_map] at hd
  obtain (⟨m, -, rfl⟩ | ⟨e, -, rfl⟩) | hd := hd
  · exact h
  · exact h
  · exact inFramework_entryDeclarations entries h d hd

lemma inFramework_entryDeclarations {trail : List String} (es : List (EntryOf Namespace))
    (h : InFramework trail) : ∀ d ∈ entryDeclarations trail es, InFramework d.1 := by
  intro d hd
  match es with
  | [] => simp [entryDeclarations] at hd
  | .child ns :: es =>
    rcases List.mem_append.1 hd with hd | hd
    · exact ns.inFramework_declarations (h.append _) d hd
    · exact inFramework_entryDeclarations es h d hd
  | .malformed v :: es => exact inFramework_entryDeclarations es h d hd

end

/-- The declaration that was found, if it is one. -/
def Finding.declaration? : Finding → Option Declaration
  | model _ m => some (.model m)
  | enum _ e => some (.enum e)
  | _ => none

mutual

/-- The walk finds the declarations outside the framework. -/
theorem Namespace.filterMap_findings {outer : List String} (h : ¬ InFramework outer)
    (ns : Namespace) : (ns.findings (pathOf outer)).filterMap Finding.declaration? =
      ((ns.declarations outer).filter fun d => ¬ InFramework d.1).map Prod.snd := by
  obtain ⟨name, entries, models, enums⟩ := ns
  by_cases hin : InFramework (outer ++ [name])
  · rw [filter_eq_nil_of_inFramework (Namespace.inFramework_declarations _ hin)]
    have hpath := (pathOf_eq_framework_iff h).2 hin
    rw [pathOf_snoc] at hpath
    rw [Namespace.findings, if_pos hpath]
    rfl
  · have hpath := (pathOf_eq_framework_iff h).not.2 hin
    have hentries := filterMap_entryFindings hin entries
    rw [pathOf_snoc] at hpath hentries
    rw [Namespace.findings, if_neg hpath, Namespace.declarations]
    simp only [List.filterMap_append, List.filter_append, List.map_append, hentries]
    simp [Function.comp_def, List.filter_map, hin, Finding.declaration?]

theorem filterMap_entryFindings {trail : List String} (h : ¬ InFramework trail)
    (es : List (EntryOf Namespace)) :
    (entryFindings (pathOf trail) es).filterMap Finding.declaration? =
      ((entryDeclarations trail es).filter fun d => ¬ InFramework d.1).map Prod.snd := by
  match es with
  | [] => rfl
  | .child ns :: es =>
    rw [entryFindings, entryDeclarations, List.filterMap_append, List.filter_append,
      List.map_append, ns.filterMap_findings h, filterMap_entryFindings h es]
  | .malformed v :: es => exact filterMap_entryFindings h es

end

/-! ### The rulings -/

lemma Model.exclusion?_eq_none_iff {m : Model} :
    m.exclusion? = none ↔ (Declaration.model m).Eligible := by
  unfold Model.exclusion? Declaration.Eligible Model.isContainer Model.isTemplate
  simp only [Bool.or_eq_true, isSome_container?_iff]
  split_ifs <;> simp_all

/-- The declaration that is kept, if one is. -/
def Ruling.declaration? : Ruling → Option Declaration
  | keptModel m => some (.model m)
  | keptEnum e => some (.enum e)
  | _ => none

lemma Ruling.takes_eq (r : Ruling) : r.takes = (r.declaration?.map Declaration.name).toList := by
  cases r <;> rfl

/-- A declaration is kept if it may have a validator and its name is free. -/
lemma Finding.declaration?_rule (taken : List String) (f : Finding) :
    (f.rule taken).declaration? =
      f.declaration?.filter fun d => d.Eligible ∧ d.name ∉ taken := by
  cases f with
  | framework | malformed => rfl
  | model path m =>
    rw [Finding.declaration?, Option.filter_some]
    simp only [Finding.rule, Declaration.name, ← Model.exclusion?_eq_none_iff]
    rcases m.exclusion? with _ | why
    · by_cases hname : m.name ∈ taken <;> simp [hname, Ruling.declaration?]
    · simp [Ruling.declaration?]
  | enum path e =>
    rw [Finding.declaration?, Option.filter_some]
    simp only [Finding.rule, Declaration.name, Declaration.Eligible]
    by_cases hlib : e.origin = .library
    · simp [hlib, Ruling.declaration?]
    · by_cases hname : e.name ∈ taken <;> simp [hlib, hname, Ruling.declaration?]

/-- The rulings keep the first of each free name among what may have a validator. -/
theorem filterMap_rulings (taken : List String) (fs : List Finding) :
    (rulings taken fs).filterMap Ruling.declaration? =
      ((fs.filterMap Finding.declaration?).filter
        fun d => d.Eligible ∧ d.name ∉ taken).eraseDupsBy fun a b => a.name == b.name := by
  induction fs generalizing taken with
  | nil => rfl
  | cons f fs ih =>
    have hrule := f.declaration?_rule taken
    rw [rulings, List.filterMap_cons, Ruling.takes_eq, hrule, List.filterMap_cons]
    rcases f.declaration? with _ | d
    · exact ih taken
    · by_cases hok : d.Eligible ∧ d.name ∉ taken
      · rw [Option.filter_some, if_pos (by simpa using hok),
          List.filter_cons_of_pos (by simpa using hok), List.eraseDupsBy_cons, List.filter_filter]
        -- the name is taken from here on, which drops the later ones of that name
        have htaken : (fun e : Declaration => decide (e.Eligible ∧ e.name ∉ [d.name] ++ taken)) =
            fun e => decide ((e.name == d.name) = false) &&
              decide (e.Eligible ∧ e.name ∉ taken) := by
          funext e
          rw [← Bool.decide_and]
          simp only [List.singleton_append, List.mem_cons, beq_eq_false_iff_ne]
          exact decide_eq_decide.2 (by tauto)
        rw [← htaken]
        exact congrArg (d :: ·) (ih _)
      · rw [Option.filter_some, if_neg (by simpa using hok),
          List.filter_cons_of_neg (by simpa using hok)]
        exact ih taken

/-- The first declaration of its name stays. -/
lemma mem_eraseDupsBy_name {d : Declaration} (before after : List Declaration)
    (h : ∀ e ∈ before, e.name ≠ d.name) :
    d ∈ (before ++ d :: after).eraseDupsBy fun a b => a.name == b.name := by
  match before with
  | [] => simp [List.eraseDupsBy_cons]
  | b :: before =>
    have hb : d.name ≠ b.name := (h b (by simp)).symm
    rw [List.cons_append, List.eraseDupsBy_cons, List.filter_append,
      List.filter_cons_of_pos (by simpa using hb)]
    refine List.mem_cons_of_mem _ (mem_eraseDupsBy_name _ _ fun e he => ?_)
    exact h e (List.mem_cons_of_mem _ (List.mem_filter.1 he).1)
termination_by before.length
decreasing_by exact Nat.lt_succ_of_le (List.length_filter_le _ _)

lemma Selection.ofRulings_eq (rs : List Ruling) :
    Selection.ofRulings rs =
      ⟨(rs.filterMap Ruling.declaration?).filterMap Declaration.model?,
        (rs.filterMap Ruling.declaration?).filterMap Declaration.enum?⟩ := by
  unfold Selection.ofRulings
  rw [List.filterMap_filterMap, List.filterMap_filterMap]
  congr 2 <;> funext r <;> cases r <;> rfl

namespace Namespace

lemma filterMap_rulings_eq_chosen (root : Namespace) :
    root.rulings.filterMap Ruling.declaration? = root.chosen := by
  have houter : ¬ InFramework [] := by decide
  have hfound := root.filterMap_findings houter
  rw [Namespace.rulings, filterMap_rulings, show "" = pathOf [] from rfl, hfound]
  simp only [List.not_mem_nil, not_false_eq_true, and_true]
  rfl

lemma selection_eq (root : Namespace) : root.selection =
    ⟨root.chosen.filterMap Declaration.model?, root.chosen.filterMap Declaration.enum?⟩ := by
  rw [selection, Selection.ofRulings_eq, filterMap_rulings_eq_chosen]

lemma holds_selection {root : Namespace} {d : Declaration} (h : d ∈ root.chosen) :
    root.selection.Holds d := by
  rw [selection_eq]
  cases d with
  | model m => exact List.mem_filterMap.2 ⟨_, h, rfl⟩
  | enum e => exact List.mem_filterMap.2 ⟨_, h, rfl⟩

lemma mem_chosen_of_first {root : Namespace} {before after : List Declaration} {d : Declaration}
    (hsplit : root.visible = before ++ d :: after) (hd : d.Eligible)
    (hfirst : ∀ e ∈ before, e.Eligible → e.name ≠ d.name) : d ∈ root.chosen := by
  rw [chosen, hsplit, List.filter_append, List.filter_cons_of_pos (by simpa using hd)]
  refine mem_eraseDupsBy_name _ _ fun e he => ?_
  obtain ⟨hmem, hok⟩ := List.mem_filter.1 he
  exact hfirst e hmem (by simpa using hok)

/-- **The selection by its rules**: of the declarations outside the framework, in the order of
the walk, those that may have a validator, and of these the first of each name. So a declaration
without a validator takes no name away from one that may have it. -/
theorem selection_by_rules (root : Namespace) :
    root.selection =
      ⟨root.chosen.filterMap Declaration.model?, root.chosen.filterMap Declaration.enum?⟩ ∧
    ∀ before d after, root.visible = before ++ d :: after → d.Eligible →
      (∀ e ∈ before, e.Eligible → e.name ≠ d.name) → root.selection.Holds d :=
  ⟨root.selection_eq, fun _ _ _ hsplit hd hfirst =>
    holds_selection (mem_chosen_of_first hsplit hd hfirst)⟩

/-- A library model and a model of the framework have the names of declarations that follow. -/
def contestedNames : Namespace where
  name := ""
  models := [{ name := "User", origin := .library }]
  entries := [
    .child {
      name := ""
      entries := [.child { name := "TypeSpec", models := [{ name := "Role" }] }] },
    .malformed .null,
    .child {
      name := "Api.TypeSpec"
      enums := [{ name := "User" }]
      models := [{ name := "Role" }] }]

theorem selection_by_rules_contestedNames :
    contestedNames.visible = [.model { name := "User", origin := .library },
      .model { name := "Role" }, .enum { name := "User" }] ∧
    contestedNames.selection.Holds (.enum { name := "User" }) ∧
    contestedNames.selection.models.map Model.name = ["Role"] := by
  have hvisible : contestedNames.visible = [.model { name := "User", origin := .library },
      .model { name := "Role" }] ++ .enum { name := "User" } :: [] := rfl
  obtain ⟨heq, hholds⟩ := selection_by_rules contestedNames
  refine ⟨hvisible, hholds _ _ _ hvisible (by decide) (by decide), ?_⟩
  rw [heq]
  rfl

end Namespace

end ZodGraph
