import ZodGraph.Proofs.Dependency.Order
import ZodGraph.Proofs.Schema.Mention

/-!
References between the definitions of a module. A direct reference is to a schema above, a
deferred one to the schema itself or one below, and only references on a cycle of dependencies
are deferred.
-/

namespace ZodGraph

open Schema (Definition Mention)
open Relation (TransGen)

/-- The scope once some models are defined. -/
def Scope.defineAll (scope : Scope) (ms : List Model) : Scope :=
  ms.foldl (fun sc m => sc.define m.name) scope

namespace Scope

variable {scope : Scope} {ms : List Model}

lemma defineAll_models : (scope.defineAll ms).models = scope.models := by
  induction ms generalizing scope with
  | nil => rfl
  | cons m ms ih => exact ih

lemma defineAll_enums : (scope.defineAll ms).enums = scope.enums := by
  induction ms generalizing scope with
  | nil => rfl
  | cons m ms ih => exact ih

lemma alike_defineAll : (scope.defineAll ms).Alike scope := by
  constructor <;> simp [defineAll_models, defineAll_enums]

lemma mem_defineAll {n : String} :
    n ∈ (scope.defineAll ms).defined ↔ n ∈ scope.defined ∨ n ∈ ms.map Model.name := by
  induction ms generalizing scope with
  | nil => simp [defineAll]
  | cons m ms ih =>
    have h := @ih (scope.define m.name)
    simp only [defineAll, List.foldl_cons, List.map_cons, List.mem_cons] at h ⊢
    rw [h]
    simp only [Scope.define, List.mem_cons]
    tauto

end Scope

/-- Each model is defined in the scope of those before it. -/
lemma getElem?_defineModels (scope : Scope) (ms : List Model) (i : Nat) :
    (defineModels scope ms)[i]? =
      ms[i]?.map fun m => ⟨m.name, m.expr (scope.defineAll (ms.take i))⟩ := by
  induction ms generalizing scope i with
  | nil => simp [defineModels]
  | cons m ms ih =>
    cases i with
    | zero => rfl
    | succ i => exact ih (scope.define m.name) i

lemma names_defineModels (scope : Scope) (ms : List Model) :
    (defineModels scope ms).map Definition.name = ms.map Model.name := by
  induction ms generalizing scope with
  | nil => rfl
  | cons m ms ih => simp [defineModels, ih]

namespace Schema

/-- Definitions can be evaluated from the top, given some schemas: each one reads only schemas
that are there already. -/
def Loads (known : List String) : List Definition → Prop
  | [] => True
  | d :: ds => (∀ n, .direct n ∈ d.expr.mentions → n ∈ known) ∧ Loads (known ++ [d.name]) ds

lemma loads_of_getElem? {known : List String} {ds : List Definition}
    (h : ∀ i d, ds[i]? = some d → ∀ n, .direct n ∈ d.expr.mentions →
      n ∈ known ++ (ds.take i).map Definition.name) : Loads known ds := by
  induction ds generalizing known with
  | nil => trivial
  | cons d ds ih =>
    refine ⟨fun n hn => by simpa using h 0 d rfl n hn, ih fun i d' hd' n hn => ?_⟩
    simpa using h (i + 1) d' hd' n hn

lemma loads_append {known : List String} {ds ds' : List Definition}
    (h : ∀ d ∈ ds, d.expr.mentions = [])
    (h' : Loads (known ++ ds.map Definition.name) ds') : Loads known (ds ++ ds') := by
  induction ds generalizing known with
  | nil => simpa using h'
  | cons d ds ih =>
    refine ⟨fun n hn => ?_, ih (fun e he => h e (by simp [he])) (by simpa using h')⟩
    rw [h d (by simp)] at hn
    simp at hn

end Schema

namespace Selection

variable {s : Selection} {o : Options} {i : Nat} {d : Definition}

lemma names_module_models : (s.module o).models.map Definition.name =
    s.dependencyGraph.order.map Model.name :=
  names_defineModels _ _

lemma names_module_enums : (s.module o).enums.map Definition.name = s.scope.enums := by
  simp [Selection.module, Selection.scope, Function.comp_def]

/-- The definition at a place, and how it may refer to others. -/
lemma exists_model_of_getElem? (h : (s.module o).models[i]? = some d) :
    ∃ m, s.dependencyGraph.order[i]? = some m ∧ d.name = m.name ∧
      ∀ x ∈ d.expr.mentions, (x.name = m.name ∨ x.name ∈ m.dependencies s.scope) ∧
        x.Fits (s.scope.defineAll (s.dependencyGraph.order.take i)) := by
  rw [Selection.module, getElem?_defineModels] at h
  obtain ⟨m, hm, rfl⟩ := Option.map_eq_some_iff.1 h
  refine ⟨m, hm, rfl, fun x hx => ?_⟩
  rw [← m.dependencies_congr Scope.alike_defineAll]
  exact Model.mention_expr hx

lemma mem_take_iff {n : String} :
    n ∈ (s.scope.defineAll (s.dependencyGraph.order.take i)).defined ↔
      n ∈ ((s.module o).models.take i).map Definition.name := by
  rw [Scope.mem_defineAll, List.map_take, List.map_take, names_module_models]
  simp [Selection.scope]

/-- Every model in scope is defined somewhere. -/
lemma mem_module_of_mem_scope {n : String} (h : n ∈ s.scope.models) :
    n ∈ (s.module o).models.map Definition.name := by
  rw [names_module_models, DependencyGraph.mem_order_names]
  exact mem_names_dependencyGraph.2 h

lemma direct_resolves (hd : (s.module o).models[i]? = some d) {n : String}
    (hn : .direct n ∈ d.expr.mentions) : n ∈ (s.module o).enums.map Definition.name ∨
      n ∈ ((s.module o).models.take i).map Definition.name := by
  obtain ⟨m, -, -, hx⟩ := exists_model_of_getElem? hd
  rcases (hx _ hn).2 with he | ⟨-, hdef⟩
  · left
    rw [Scope.defineAll_enums] at he
    rwa [names_module_enums]
  · exact Or.inr (mem_take_iff.1 hdef)

lemma deferred_resolves (hd : (s.module o).models[i]? = some d) {n : String}
    (hn : .deferred n ∈ d.expr.mentions) :
    n ∈ ((s.module o).models.drop i).map Definition.name := by
  obtain ⟨m, -, -, hx⟩ := exists_model_of_getElem? hd
  obtain ⟨hm, hdef⟩ := (hx _ hn).2
  rw [Scope.defineAll_models] at hm
  have hall := mem_module_of_mem_scope (o := o) hm
  rw [← List.take_append_drop i (s.module o).models, List.map_append] at hall
  exact (List.mem_append.1 hall).resolve_left fun h => hdef (mem_take_iff.2 h)

lemma mentions_module_enums (hd : d ∈ (s.module o).enums) : d.expr.mentions = [] := by
  obtain ⟨e, -, rfl⟩ := List.mem_map.1 hd
  exact e.mentions_expr

lemma loads_module : Schema.Loads [] (s.module o).definitions := by
  refine Schema.loads_append (fun d => mentions_module_enums) (Schema.loads_of_getElem? ?_)
  intro i d hd n hn
  exact List.mem_append.2 (by simpa using direct_resolves hd hn)

/-- No schema is missing. -/
lemma mention_declared (hd : d ∈ (s.module o).definitions) {x : Mention}
    (hx : x ∈ d.expr.mentions) : x.name ∈ (s.module o).definitions.map Definition.name := by
  rw [Schema.Module.definitions, List.map_append, List.mem_append]
  rcases List.mem_append.1 hd with hd | hd
  · rw [mentions_module_enums hd] at hx
    simp at hx
  · obtain ⟨i, hi⟩ := List.mem_iff_getElem?.1 hd
    cases x with
    | direct n =>
      exact (direct_resolves hi hx).imp_right fun h => List.map_subset _ (List.take_subset _ _) h
    | deferred n =>
      exact Or.inr (List.map_subset _ (List.drop_subset _ _) (deferred_resolves hi hx))

/-- **References resolve**: direct ones to an enum or a model above, deferred ones to a model at
the same place or below, and enums have none. So the definitions can be evaluated from the top,
and every schema they mention is declared. -/
theorem mentions_resolve (s : Selection) (o : Options) :
    (∀ i d, (s.module o).models[i]? = some d → ∀ n,
      (.direct n ∈ d.expr.mentions → n ∈ (s.module o).enums.map Definition.name ∨
        n ∈ ((s.module o).models.take i).map Definition.name) ∧
      (.deferred n ∈ d.expr.mentions →
        n ∈ ((s.module o).models.drop i).map Definition.name)) ∧
    (∀ d ∈ (s.module o).enums, d.expr.mentions = []) ∧
    Schema.Loads [] (s.module o).definitions ∧
    ∀ d ∈ (s.module o).definitions, ∀ x ∈ d.expr.mentions,
      x.name ∈ (s.module o).definitions.map Definition.name :=
  ⟨fun _ _ hd _ => ⟨direct_resolves hd, deferred_resolves hd⟩,
    fun _ => mentions_module_enums, loads_module, fun _ hd _ => mention_declared hd⟩

/-- Two models that refer to each other, and an enum. -/
def mutualModels : Selection where
  models := [
    { name := "User", properties := [⟨"posts", .array (.model "Post" none), true⟩] },
    { name := "Post",
      properties := [⟨"author", .model "User" none, false⟩, ⟨"status", .enum "Status", false⟩] }]
  enums := [{ name := "Status", members := [⟨"draft", none⟩, ⟨"live", none⟩] }]

def postDefinition : Definition where
  name := "Post"
  expr := .object [⟨"author", .lazy "User", false⟩, ⟨"status", .ref "Status", false⟩] none

theorem mentions_resolve_mutualModels :
    (mutualModels.module {}).models[0]? = some postDefinition ∧
      .deferred "User" ∈ postDefinition.expr.mentions ∧
      .direct "Status" ∈ postDefinition.expr.mentions ∧
      "User" ∈ ((mutualModels.module {}).models.drop 0).map Definition.name ∧
      ("Status" ∈ (mutualModels.module {}).enums.map Definition.name ∨
        "Status" ∈ ((mutualModels.module {}).models.take 0).map Definition.name) := by
  have h := (mentions_resolve mutualModels {}).1 0 postDefinition rfl
  exact ⟨rfl, by decide, by decide, (h "User").2 (by decide), (h "Status").1 (by decide)⟩

/-! ### What is deferred -/

lemma exists_node_of_mem_order {m : Model} (h : m ∈ s.dependencyGraph.order) :
    s.dependencyGraph.get? m.name = some ⟨m, m.dependencies s.scope⟩ := by
  obtain ⟨node, hnode, rfl⟩ := DependencyGraph.exists_node_of_mem_order h
  obtain ⟨m, -, rfl⟩ := exists_model_of_mem_nodes hnode
  exact DependencyGraph.get?_eq_some_iff.2 ⟨hnode, rfl⟩

/-- A dependency comes first unless it leads back. -/
lemma precedes_or_returns {m n : String} {deps : List String}
    (hm : s.dependencyGraph.dependencies m = some deps) (hn : n ∈ deps)
    (hs : n ∈ s.models.map Model.name) :
    (∃ before after, s.dependencyGraph.order.map Model.name = before ++ m :: after ∧
      n ∈ before) ∨ TransGen s.dependencyGraph.Edge n m := by
  obtain ⟨node, get, rfl⟩ := DependencyGraph.dependencies_eq_some_iff.1 hm
  have hedge : s.dependencyGraph.Edge m n :=
    ⟨node, get, hn, mem_names_dependencyGraph.2 hs⟩
  obtain ⟨decl, hdecl, rfl⟩ := List.mem_map.1
    (DependencyGraph.mem_order_names.2 (DependencyGraph.mem_names_of_get? get))
  obtain ⟨before, after, heq⟩ := List.append_of_mem hdecl
  refine (DependencyGraph.settled_order _ before decl after heq n hedge).imp_left fun h => ?_
  exact ⟨before.map Model.name, after.map Model.name, by simp [heq], h⟩

/-- A deferred reference is to the model itself, or along a dependency that leads back. -/
lemma deferred_returns (hd : d ∈ (s.module o).models) {n : String}
    (hn : .deferred n ∈ d.expr.mentions) : n = d.name ∨
      s.dependencyGraph.Edge d.name n ∧ TransGen s.dependencyGraph.Edge n d.name := by
  obtain ⟨i, hi⟩ := List.mem_iff_getElem?.1 hd
  obtain ⟨m, hm, hname, hx⟩ := exists_model_of_getElem? hi
  obtain ⟨hself | hdep, hmodel, hopen⟩ := hx _ hn
  · exact Or.inl (hself.trans hname.symm)
  · right
    rw [Scope.defineAll_models] at hmodel
    have hedge : s.dependencyGraph.Edge m.name n :=
      ⟨_, exists_node_of_mem_order (List.mem_of_getElem? hm), hdep,
        mem_names_dependencyGraph.2 hmodel⟩
    obtain ⟨hlt, rfl⟩ := List.getElem?_eq_some_iff.1 hm
    have hsplit : s.dependencyGraph.order = s.dependencyGraph.order.take i ++
        s.dependencyGraph.order[i] :: s.dependencyGraph.order.drop (i + 1) := by
      rw [← List.drop_eq_getElem_cons hlt, List.take_append_drop]
    rw [hname]
    refine ⟨hedge, (DependencyGraph.settled_order _ _ _ _ hsplit n hedge).resolve_left ?_⟩
    -- a model above would be defined, and the reference to it direct
    exact fun hbefore => hopen (Scope.mem_defineAll.2 (Or.inr hbefore))

/-- **Only cycles defer**: a dependency comes strictly first unless it leads back to the model
that has it. So a deferred reference is to the model itself or lies on a cycle with it, and
without cycles only references of models to themselves are deferred. -/
theorem deferred_only_on_cycles (s : Selection) (o : Options) :
    (∀ m n deps, s.dependencyGraph.dependencies m = some deps → n ∈ deps →
      n ∈ s.models.map Model.name →
      (∃ before after, s.dependencyGraph.order.map Model.name = before ++ m :: after ∧
        n ∈ before) ∨ TransGen s.dependencyGraph.Edge n m) ∧
    (∀ d ∈ (s.module o).models, ∀ n, .deferred n ∈ d.expr.mentions → n = d.name ∨
      TransGen s.dependencyGraph.Edge d.name n ∧ TransGen s.dependencyGraph.Edge n d.name) ∧
    ((∀ n, ¬ TransGen s.dependencyGraph.Edge n n) →
      ∀ d ∈ (s.module o).models, ∀ n, .deferred n ∈ d.expr.mentions → n = d.name) := by
  refine ⟨fun m n deps => precedes_or_returns, fun d hd n hn => ?_, fun acyclic d hd n hn => ?_⟩
  · exact (deferred_returns hd hn).imp_right fun ⟨hedge, hback⟩ => ⟨.single hedge, hback⟩
  · exact (deferred_returns hd hn).resolve_right fun ⟨hedge, hback⟩ =>
      acyclic n (hback.tail hedge)

/-- A model that refers only to itself. -/
def treeModel : Selection where
  models := [{ name := "Tree", properties := [⟨"left", .model "Tree" none, true⟩] }]

def treeDefinition : Definition where
  name := "Tree"
  expr := .object [⟨"left", .lazy "Tree", true⟩] none

lemma treeModel_acyclic (n : String) : ¬ TransGen treeModel.dependencyGraph.Edge n n :=
  DependencyGraph.acyclic_of_rank (fun _ => 0) (by decide) n

theorem deferred_only_on_cycles_examples :
    mutualModels.dependencyGraph.dependencies "User" = some ["Post"] ∧
      ((∃ before after, mutualModels.dependencyGraph.order.map Model.name =
          before ++ "User" :: after ∧ "Post" ∈ before) ∨
        TransGen mutualModels.dependencyGraph.Edge "Post" "User") ∧
      postDefinition ∈ (mutualModels.module {}).models ∧
      TransGen mutualModels.dependencyGraph.Edge "Post" "User" ∧
      TransGen mutualModels.dependencyGraph.Edge "User" "Post" ∧
      treeDefinition ∈ (treeModel.module {}).models ∧
      .deferred "Tree" ∈ treeDefinition.expr.mentions ∧ "Tree" = treeDefinition.name := by
  have hpost : postDefinition ∈ (mutualModels.module {}).models := List.mem_of_getElem? (i := 0) rfl
  have htree : treeDefinition ∈ (treeModel.module {}).models := List.mem_of_getElem? (i := 0) rfl
  obtain ⟨hfirst, hcycle, -⟩ := deferred_only_on_cycles mutualModels {}
  obtain ⟨-, -, hself⟩ := deferred_only_on_cycles treeModel {}
  obtain ⟨hout, hback⟩ := (hcycle postDefinition hpost "User" (by decide)).resolve_left (by decide)
  exact ⟨rfl, hfirst "User" "Post" ["Post"] rfl (by decide) (by decide), hpost, hout, hback,
    htree, by decide, hself treeModel_acyclic treeDefinition htree "Tree" (by decide)⟩

end Selection

end ZodGraph
