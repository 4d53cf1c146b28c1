import ZodGraph.Proofs.Schema.Reference
import ZodGraph.Proofs.Selection

/-!
Each declaration is defined once. The order of a selection has every model name once, with the
last declaration of that name. The selection of a graph repeats no name, so its definitions are
the enums and a permutation of the models, and no two constants are called the same.
-/

namespace ZodGraph

open Schema (Definition identifier)

/-- The element is in the list, and no later one has its key. -/
def LastOf {α : Type} (key : α → String) (a : α) (l : List α) : Prop :=
  ∃ before after, l = before ++ a :: after ∧ key a ∉ after.map key

section LastOf

variable {α β : Type} {key : α → String} {a b : α} {l : List α}

lemma not_lastOf_nil : ¬ LastOf key a [] := by
  rintro ⟨before, after, h, -⟩
  simp at h

lemma lastOf_cons : LastOf key a (b :: l) ↔ LastOf key a l ∨ a = b ∧ key a ∉ l.map key := by
  constructor
  · rintro ⟨before, after, h, hlast⟩
    rcases before with _ | ⟨c, before⟩
    · obtain ⟨rfl, rfl⟩ := List.cons.inj h
      exact Or.inr ⟨rfl, hlast⟩
    · exact Or.inl ⟨before, after, (List.cons.inj h).2, hlast⟩
  · rintro (⟨before, after, rfl, hlast⟩ | ⟨rfl, hlast⟩)
    · exact ⟨b :: before, after, rfl, hlast⟩
    · exact ⟨[], l, rfl, hlast⟩

lemma LastOf.mem (h : LastOf key a l) : a ∈ l := by
  obtain ⟨before, after, rfl, -⟩ := h
  simp

lemma lastOf_map {f : β → α} {l : List β} :
    LastOf key a (l.map f) ↔ ∃ b, f b = a ∧ LastOf (fun b => key (f b)) b l := by
  induction l with
  | nil => simp [not_lastOf_nil]
  | cons b l ih =>
    rw [List.map_cons, lastOf_cons, ih]
    simp only [lastOf_cons, List.map_map, Function.comp_def]
    constructor
    · rintro (⟨c, rfl, hc⟩ | ⟨rfl, hlast⟩)
      · exact ⟨c, rfl, Or.inl hc⟩
      · exact ⟨b, rfl, Or.inr ⟨rfl, hlast⟩⟩
    · rintro ⟨c, rfl, hc | ⟨rfl, hlast⟩⟩
      · exact Or.inl ⟨c, rfl, hc⟩
      · exact Or.inr ⟨rfl, hlast⟩

/-- Where no key is repeated, every element is the last of its key. -/
lemma lastOf_iff_mem (h : (l.map key).Nodup) : LastOf key a l ↔ a ∈ l := by
  refine ⟨LastOf.mem, fun ha => ?_⟩
  obtain ⟨before, after, rfl⟩ := List.append_of_mem ha
  refine ⟨before, after, rfl, ?_⟩
  rw [List.map_append, List.map_cons] at h
  exact (List.nodup_cons.1 (List.nodup_append.1 h).2.1).1

end LastOf

namespace DependencyGraph

variable {g : DependencyGraph} {node : DependencyNode}

lemma mem_put_iff {n : DependencyNode} {ns : List DependencyNode}
    (h : (ns.map DependencyNode.name).Nodup) :
    node ∈ put n ns ↔ node = n ∨ node ∈ ns ∧ node.name ≠ n.name := by
  induction ns with
  | nil => simp [put]
  | cons n' ns ih =>
    obtain ⟨hn', hns⟩ := List.nodup_cons.1 h
    unfold put
    split_ifs with hname
    · -- the node in this place gives way, and no other has its name
      have hne : node ∈ ns → node.name ≠ n.name := fun hm e =>
        hn' (hname ▸ e ▸ List.mem_map_of_mem hm)
      rw [List.mem_cons, List.mem_cons]
      constructor
      · rintro (rfl | hm)
        · exact Or.inl rfl
        · exact Or.inr ⟨Or.inr hm, hne hm⟩
      · rintro (rfl | ⟨rfl | hm, hne'⟩)
        · exact Or.inl rfl
        · exact absurd hname hne'
        · exact Or.inr hm
    · rw [List.mem_cons, ih hns, List.mem_cons]
      constructor
      · rintro (rfl | rfl | ⟨hm, hne⟩)
        · exact Or.inr ⟨Or.inl rfl, hname⟩
        · exact Or.inl rfl
        · exact Or.inr ⟨Or.inr hm, hne⟩
      · rintro (rfl | ⟨rfl | hm, hne⟩)
        · exact Or.inr (Or.inl rfl)
        · exact Or.inl rfl
        · exact Or.inr (Or.inr ⟨hm, hne⟩)

/-- Of nodes put one after the other, the last of each name stays. -/
lemma mem_putAll_iff {nodes ns : List DependencyNode} (h : (ns.map DependencyNode.name).Nodup) :
    node ∈ nodes.foldl (fun ns n => put n ns) ns ↔ LastOf DependencyNode.name node nodes ∨
      node ∈ ns ∧ node.name ∉ nodes.map DependencyNode.name := by
  induction nodes generalizing ns with
  | nil => simp [not_lastOf_nil]
  | cons n nodes ih =>
    rw [List.foldl_cons, ih (nodup_put n h), mem_put_iff h, lastOf_cons, List.map_cons,
      List.mem_cons]
    tauto

/-- The order holds the declarations of the nodes. -/
lemma mem_order_iff_node {m : Model} : m ∈ g.order ↔ ∃ node ∈ g.nodes, node.decl = m := by
  refine ⟨exists_node_of_mem_order, ?_⟩
  rintro ⟨node, hnode, rfl⟩
  have hname : node.name ∈ g.order.map Model.name :=
    mem_order_names.2 (List.mem_map_of_mem hnode)
  obtain ⟨m, hm, heq⟩ := List.mem_map.1 hname
  obtain ⟨other, hother, rfl⟩ := exists_node_of_mem_order hm
  rwa [← List.inj_on_of_nodup_map g.distinct hother hnode heq]

end DependencyGraph

namespace Selection

variable {s : Selection}

lemma mem_order_iff_lastOf {m : Model} :
    m ∈ s.dependencyGraph.order ↔ LastOf Model.name m s.models := by
  have hnodes : ∀ node, node ∈ s.dependencyGraph.nodes ↔
      LastOf DependencyNode.name node s.analyses := by
    intro node
    rw [dependencyGraph, DependencyGraph.ofNodes, DependencyGraph.mem_putAll_iff (by simp)]
    simp
  rw [DependencyGraph.mem_order_iff_node]
  constructor
  · rintro ⟨node, hnode, rfl⟩
    obtain ⟨m, rfl, hm⟩ := lastOf_map.1 ((hnodes node).1 hnode)
    exact hm
  · intro hm
    exact ⟨⟨m, m.dependencies s.scope⟩, (hnodes _).2 (lastOf_map.2 ⟨m, rfl, hm⟩), rfl⟩

lemma count_order (s : Selection) (n : String) :
    (s.dependencyGraph.order.map Model.name).count n =
      if n ∈ s.models.map Model.name then 1 else 0 := by
  rw [(DependencyGraph.nodup_order _).count]
  simp only [DependencyGraph.mem_order_names, mem_names_dependencyGraph]

lemma perm_order (h : s.names.Nodup) : s.dependencyGraph.order.Perm s.models := by
  have hmodels : (s.models.map Model.name).Nodup := (List.nodup_append.1 h).1
  refine (List.perm_ext_iff_of_nodup (DependencyGraph.nodup_order _).of_map hmodels.of_map).2 ?_
  exact fun m => mem_order_iff_lastOf.trans (lastOf_iff_mem hmodels)

/-- Each definition is that of the model in its place. -/
lemma forall₂_defineModels (scope : Scope) (ms : List Model) :
    List.Forall₂ (fun d m => d.name = m.name ∧
      ∃ defined, d.expr = m.expr { scope with defined := defined }) (defineModels scope ms) ms := by
  induction ms generalizing scope with
  | nil => exact .nil
  | cons m ms ih => exact .cons ⟨rfl, scope.defined, rfl⟩ (ih (scope.define m.name))

end Selection

lemma Schema.identifier_injective : Function.Injective identifier := by
  intro a b h
  simpa [identifier] using h

namespace Selection

lemma nodup_identifiers {s : Selection} (h : s.names.Nodup) (o : Options) :
    ((s.module o).definitions.map fun d => identifier d.name).Nodup := by
  have hnames : ((s.module o).definitions.map Definition.name).Perm s.names := by
    rw [Schema.Module.definitions, List.map_append, names_module_models, names_module_enums]
    exact List.perm_append_comm.trans (((perm_order h).map Model.name).append_right _)
  rw [show (fun d : Definition => identifier d.name) = identifier ∘ Definition.name from rfl,
    ← List.map_map]
  exact (hnames.nodup_iff.2 h).map Schema.identifier_injective

/-- **Each declaration once**: the order of a selection has every model name exactly once, with
the last declaration of that name. What is defined for a graph is the selected enums in order,
then the selected models in some order, and the constants all have different names. -/
theorem definitions_once :
    (∀ s : Selection,
      (∀ n, (s.dependencyGraph.order.map Model.name).count n =
        if n ∈ s.models.map Model.name then 1 else 0) ∧
      ∀ m, m ∈ s.dependencyGraph.order ↔ LastOf Model.name m s.models) ∧
    ∀ (root : Namespace) (o : Options),
      ((root.selection.module o).enums = root.selection.enums.map fun e => ⟨e.name, e.expr⟩) ∧
      (∃ ms, ms.Perm root.selection.models ∧
        List.Forall₂ (fun d m => d.name = m.name ∧
          ∃ defined, d.expr = m.expr { root.selection.scope with defined := defined })
          (root.selection.module o).models ms) ∧
      ((root.selection.module o).definitions.map fun d => identifier d.name).Nodup := by
  refine ⟨fun s => ⟨s.count_order, fun m => mem_order_iff_lastOf⟩, fun root o => ⟨rfl, ?_, ?_⟩⟩
  · exact ⟨_, perm_order root.nodup_selection, forall₂_defineModels _ _⟩
  · exact nodup_identifiers root.nodup_selection o

end Selection

end ZodGraph
