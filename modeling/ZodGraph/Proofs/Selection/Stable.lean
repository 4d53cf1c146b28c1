import ZodGraph.Proofs.Dependency.DepthFirst
import ZodGraph.Proofs.Schema.Reference

/-!
Ordering what is in order. A search that meets every model after its dependencies finds nothing
to enter and leaves the models as they are. The order of a graph without cycles is such an order,
so ordering it once more changes nothing.
-/

namespace ZodGraph

open Relation (TransGen)

namespace DependencyGraph

variable {g : DependencyGraph}

/-- Every model stands after the models it depends on. -/
def Sorted (g : DependencyGraph) : Prop :=
  ∀ before node after, g.nodes = before ++ node :: after →
    ∀ n ∈ node.deps, n ∈ g.names → n ∈ before.map DependencyNode.name

lemma postOrderAll_of_done {path deps : List String} {done : List Model}
    (h : ∀ n ∈ deps, n ∈ g.names → n ∈ done.map Model.name) :
    g.postOrderAll path done deps = done := by
  induction deps with
  | nil => rfl
  | cons dep deps ih =>
    have hskip : dep ∉ g.names ∨ dep ∈ done.map Model.name ∨ dep ∈ path := by
      have := h dep (by simp)
      tauto
    rw [postOrderAll_cons_of_skip hskip]
    exact ih fun n hn => h n (by simp [hn])

/-- With all that stands before it done, a model is done at once. -/
lemma postOrder_of_sorted (h : g.Sorted) {before after : List DependencyNode}
    {node : DependencyNode} (hsplit : g.nodes = before ++ node :: after) :
    g.postOrder [] (before.map DependencyNode.decl) node.name =
      (before ++ [node]).map DependencyNode.decl := by
  have hnames : (before.map DependencyNode.decl).map Model.name =
      before.map DependencyNode.name := List.map_map
  have get : g.get? node.name = some node := get?_eq_some_iff.2 ⟨by simp [hsplit], rfl⟩
  have new : node.name ∉ (before.map DependencyNode.decl).map Model.name := by
    have hdistinct := g.distinct
    rw [hsplit, List.map_append, List.map_cons] at hdistinct
    rw [hnames]
    exact fun hn => (List.nodup_append.1 hdistinct).2.2 _ hn _ List.mem_cons_self rfl
  rw [postOrder_of_new new (by simp) get, postOrderAll_of_done]
  · simp
  · rw [hnames]
    exact h before node after hsplit

theorem order_of_sorted (h : g.Sorted) : g.order = g.nodes.map DependencyNode.decl := by
  have visited : ∀ after before, g.nodes = before ++ after →
      (after.map DependencyNode.name).foldl (g.postOrder []) (before.map DependencyNode.decl) =
        g.nodes.map DependencyNode.decl := by
    intro after
    induction after with
    | nil =>
      intro before hsplit
      simp [hsplit]
    | cons node after ih =>
      intro before hsplit
      rw [List.map_cons, List.foldl_cons, postOrder_of_sorted h hsplit]
      exact ih (before ++ [node]) (by simpa using hsplit)
  rw [order_eq_depthFirst]
  exact visited g.nodes [] rfl

end DependencyGraph

namespace Selection

variable {s : Selection}

/-- Every model stands after the models it depends on. -/
def Ordered (s : Selection) : Prop :=
  ∀ before m after, s.models = before ++ m :: after →
    ∀ n ∈ m.dependencies s.scope, n ∈ s.models.map Model.name → n ∈ before.map Model.name

lemma Ordered.sorted (h : s.Ordered) (hnames : (s.models.map Model.name).Nodup) :
    s.dependencyGraph.Sorted := by
  intro before node after hsplit n hn known
  rw [nodes_dependencyGraph hnames] at hsplit
  obtain ⟨before', rest, hmodels, rfl, hrest⟩ := List.map_eq_append_iff.1 hsplit
  obtain ⟨m, after', rfl, rfl, rfl⟩ := List.map_eq_cons_iff.1 hrest
  have hmem := h before' m after' hmodels n hn (mem_names_dependencyGraph.1 known)
  simpa [DependencyNode.name, Function.comp_def] using hmem

/-- Models in order stay as they are. -/
lemma order_of_ordered (hnames : (s.models.map Model.name).Nodup) (h : s.Ordered) :
    s.dependencyGraph.order = s.models := by
  rw [DependencyGraph.order_of_sorted (h.sorted hnames), nodes_dependencyGraph hnames]
  simp [analyses, Function.comp_def]

/-- The selection with its models in the order of their definitions. -/
def reordered (s : Selection) : Selection := { s with models := s.dependencyGraph.order }

lemma alike_reordered (s : Selection) : s.reordered.scope.Alike s.scope where
  models n := by
    simp only [reordered, scope, DependencyGraph.mem_order_names, mem_names_dependencyGraph]
  enums n := Iff.rfl

/-- Without cycles the order of definitions has every dependency first. -/
lemma ordered_reordered (acyclic : ∀ n, ¬ TransGen s.dependencyGraph.Edge n n) :
    s.reordered.Ordered := by
  intro before m after hsplit n hn known
  rw [m.dependencies_congr s.alike_reordered] at hn
  have hm : m ∈ s.dependencyGraph.order := by
    have hsplit' : s.dependencyGraph.order = before ++ m :: after := hsplit
    simp [hsplit']
  have hedge : s.dependencyGraph.Edge m.name n :=
    ⟨_, exists_node_of_mem_order hm, hn, DependencyGraph.mem_order_names.1 known⟩
  have hsettled := DependencyGraph.settled_order _ before m after hsplit n hedge
  exact hsettled.resolve_right fun hback => acyclic n (hback.tail hedge)

/-- **Ordering is stable**: models that stand after their dependencies are left as they are.
So without cycles ordering is idempotent: to order the models once more changes nothing. -/
theorem order_stable (s : Selection) (hnames : (s.models.map Model.name).Nodup) :
    (s.Ordered → s.dependencyGraph.order = s.models) ∧
    ((∀ n, ¬ TransGen s.dependencyGraph.Edge n n) →
      s.reordered.dependencyGraph.order = s.dependencyGraph.order) :=
  ⟨order_of_ordered hnames, fun acyclic =>
    order_of_ordered (DependencyGraph.nodup_order _) (ordered_reordered acyclic)⟩

/-- Models that stand before what they depend on, some of it shared. -/
def invoices : Selection where
  models := [
    { name := "Invoice",
      properties := [⟨"lines", .array (.model "Line" none), false⟩,
        ⟨"status", .enum "Status", false⟩, ⟨"customer", .model "Customer" none, true⟩,
        ⟨"replaces", .model "Invoice" none, true⟩] },
    { name := "Line",
      properties := [⟨"product", .model "Product" none, false⟩,
        ⟨"recipient", .model "Customer" none, true⟩] },
    { name := "Customer" },
    { name := "Product", properties := [⟨"status", .enum "Status", false⟩] }]
  enums := [{ name := "Status", members := [⟨"open", none⟩, ⟨"closed", none⟩] }]

lemma invoices_acyclic : ∀ n, ¬ TransGen invoices.dependencyGraph.Edge n n :=
  DependencyGraph.acyclic_of_rank
    (fun n => if n = "Invoice" then 2 else if n = "Line" then 1 else 0) (by decide)

theorem order_stable_invoices :
    (invoices.models.map Model.name).Nodup ∧
    (∀ n, ¬ TransGen invoices.dependencyGraph.Edge n n) ∧
    invoices.dependencyGraph.order.map Model.name = ["Product", "Customer", "Line", "Invoice"] ∧
    invoices.reordered.dependencyGraph.order = invoices.dependencyGraph.order ∧
    (invoices.reordered.models.map Model.name).Nodup ∧
    invoices.reordered.Ordered ∧
    invoices.reordered.dependencyGraph.order = invoices.reordered.models := by
  have hnames : (invoices.models.map Model.name).Nodup := by decide
  have hnames' : (invoices.reordered.models.map Model.name).Nodup := by decide
  have hordered := ordered_reordered invoices_acyclic
  exact ⟨hnames, invoices_acyclic, by decide, (order_stable _ hnames).2 invoices_acyclic, hnames',
    hordered, (order_stable _ hnames').1 hordered⟩

-- each of two models that refer to each other comes last when it is first
example : mutualModels.dependencyGraph.order.map Model.name = ["Post", "User"] ∧
    mutualModels.reordered.dependencyGraph.order.map Model.name = ["User", "Post"] := by decide

end Selection

end ZodGraph
