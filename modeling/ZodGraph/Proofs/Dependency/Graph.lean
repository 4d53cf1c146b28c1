import Mathlib.Data.List.Basic
import Mathlib.Logic.Relation
import Mathlib.Tactic
import ZodGraph.Dependency

/-!
Looking up models in a dependency graph, and what the graph of a selection holds: its models by
name, each with the dependencies it has in scope.
-/

namespace ZodGraph

namespace DependencyGraph

variable {g : DependencyGraph} {name : String} {node : DependencyNode}

lemma get?_eq_some_iff : g.get? name = some node ↔ node ∈ g.nodes ∧ node.name = name := by
  constructor
  · intro h
    exact ⟨List.mem_of_find?_eq_some h, by simpa using List.find?_some h⟩
  · rintro ⟨hm, rfl⟩
    obtain ⟨other, ho⟩ : ∃ other, g.get? node.name = some other :=
      Option.isSome_iff_exists.1 (List.find?_isSome.2 ⟨node, hm, by simp⟩)
    have hname : other.name = node.name := by simpa using List.find?_some ho
    rw [ho, List.inj_on_of_nodup_map g.distinct (List.mem_of_find?_eq_some ho) hm hname]

lemma exists_get?_of_mem (h : name ∈ g.names) : ∃ node, g.get? name = some node := by
  obtain ⟨node, hm, hn⟩ := List.mem_map.1 h
  exact ⟨node, get?_eq_some_iff.2 ⟨hm, hn⟩⟩

lemma mem_names_of_get? (h : g.get? name = some node) : name ∈ g.names :=
  List.mem_map.2 ⟨node, get?_eq_some_iff.1 h⟩

lemma dependencies_eq_some_iff {deps : List String} :
    g.dependencies name = some deps ↔ ∃ node, g.get? name = some node ∧ node.deps = deps := by
  simp [dependencies]

/-- One model of the graph depends on another. -/
def Edge (g : DependencyGraph) (m n : String) : Prop :=
  ∃ node, g.get? m = some node ∧ n ∈ node.deps ∧ n ∈ g.names

/-- A graph whose edges all go down has no cycle. -/
lemma acyclic_of_rank (rank : String → Nat) (h : ∀ node ∈ g.nodes, ∀ n ∈ node.deps,
    n ∈ g.names → rank n < rank node.name) (n : String) : ¬ Relation.TransGen g.Edge n n := by
  have hedge : ∀ m n, g.Edge m n → rank n < rank m := by
    rintro m n ⟨node, get, hdep, known⟩
    obtain ⟨hnode, rfl⟩ := get?_eq_some_iff.1 get
    exact h node hnode n hdep known
  have hpath : ∀ m, Relation.TransGen g.Edge n m → rank m < rank n := by
    intro m hm
    induction hm with
    | single hn => exact hedge _ _ hn
    | tail _ hm ih => exact (hedge _ _ hm).trans ih
  exact fun hcycle => (hpath n hcycle).false

lemma mem_put {n : DependencyNode} {ns : List DependencyNode} (h : node ∈ put n ns) :
    node ∈ ns ∨ node = n := by
  induction ns with
  | nil => simpa [put] using h
  | cons n' ns ih =>
    unfold put at h
    split at h
    · rcases List.mem_cons.1 h with rfl | h
      · exact Or.inr rfl
      · exact Or.inl (List.mem_cons_of_mem _ h)
    · rcases List.mem_cons.1 h with rfl | h
      · exact Or.inl List.mem_cons_self
      · exact (ih h).imp_left (List.mem_cons_of_mem _)

lemma mem_putAll {nodes ns : List DependencyNode}
    (h : node ∈ nodes.foldl (fun ns n => put n ns) ns) : node ∈ ns ∨ node ∈ nodes := by
  induction nodes generalizing ns with
  | nil => exact Or.inl h
  | cons n nodes ih =>
    rcases ih h with h | h
    · exact (mem_put h).imp_right fun e => by simp [e]
    · exact Or.inr (List.mem_cons_of_mem _ h)

lemma mem_names_putAll {nodes ns : List DependencyNode} :
    name ∈ (nodes.foldl (fun ns n => put n ns) ns).map DependencyNode.name ↔
      name ∈ ns.map DependencyNode.name ∨ name ∈ nodes.map DependencyNode.name := by
  induction nodes generalizing ns with
  | nil => simp
  | cons n nodes ih =>
    rw [List.foldl_cons, ih, names_put, List.map_cons, List.mem_cons]
    split
    · next hn =>
      constructor
      · rintro (h | h) <;> tauto
      · rintro (h | rfl | h) <;> tauto
    · simp [or_assoc]

lemma put_of_not_mem {ns : List DependencyNode} (h : node.name ∉ ns.map DependencyNode.name) :
    put node ns = ns ++ [node] := by
  induction ns with
  | nil => rfl
  | cons n ns ih =>
    rw [List.map_cons, List.mem_cons, not_or] at h
    rw [put, if_neg (Ne.symm h.1), ih h.2, List.cons_append]

/-- Nodes of different names keep their order. -/
lemma putAll_of_nodup {nodes ns : List DependencyNode}
    (h : ((ns ++ nodes).map DependencyNode.name).Nodup) :
    nodes.foldl (fun ns n => put n ns) ns = ns ++ nodes := by
  induction nodes generalizing ns with
  | nil => simp
  | cons n nodes ih =>
    have hnew : n.name ∉ ns.map DependencyNode.name := by
      rw [List.map_append, List.map_cons] at h
      exact fun hn => (List.nodup_append.1 h).2.2 _ hn _ List.mem_cons_self rfl
    rw [List.foldl_cons, put_of_not_mem hnew, ih (by simpa using h), List.append_assoc,
      List.singleton_append]

end DependencyGraph

namespace Selection

open DependencyGraph

variable {s : Selection}

lemma mem_names_dependencyGraph {name : String} :
    name ∈ s.dependencyGraph.names ↔ name ∈ s.models.map Model.name := by
  unfold dependencyGraph ofNodes DependencyGraph.names
  rw [mem_names_putAll]
  simp [analyses, DependencyNode.name]

lemma exists_model_of_mem_nodes {node : DependencyNode} (h : node ∈ s.dependencyGraph.nodes) :
    ∃ m ∈ s.models, node = ⟨m, m.dependencies s.scope⟩ := by
  have hmem : node ∈ s.analyses := (mem_putAll h).resolve_left (by simp)
  obtain ⟨m, hm, rfl⟩ := List.mem_map.1 hmem
  exact ⟨m, hm, rfl⟩

/-- Where no name is repeated, the graph has the models in the order of the selection. -/
lemma nodes_dependencyGraph (h : (s.models.map Model.name).Nodup) :
    s.dependencyGraph.nodes = s.analyses := by
  have hnames : (s.analyses.map DependencyNode.name).Nodup := by
    simpa [analyses, DependencyNode.name, Function.comp_def] using h
  exact putAll_of_nodup hnames

end Selection

end ZodGraph
