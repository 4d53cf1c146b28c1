import ZodGraph.Scope

/-!
The models of a module with what they depend on, by name.
-/

namespace ZodGraph

structure DependencyNode where
  decl : Model
  deps : List String
deriving Inhabited

def DependencyNode.name (n : DependencyNode) : String := n.decl.name

/-- Nodes of pairwise different names. -/
structure DependencyGraph where
  nodes : List DependencyNode := []
  distinct : (nodes.map DependencyNode.name).Nodup := by simp

instance : Inhabited DependencyGraph := ⟨{}⟩

namespace DependencyGraph

def names (g : DependencyGraph) : List String := g.nodes.map DependencyNode.name

def get? (g : DependencyGraph) (name : String) : Option DependencyNode :=
  g.nodes.find? fun n => n.name == name

/-- Puts a node in the place of the one with its name, or at the end. -/
def put (node : DependencyNode) : List DependencyNode → List DependencyNode
  | [] => [node]
  | n :: ns => if n.name = node.name then node :: ns else n :: put node ns

theorem names_put (node : DependencyNode) (ns : List DependencyNode) :
    (put node ns).map DependencyNode.name =
      if node.name ∈ ns.map DependencyNode.name then ns.map DependencyNode.name
      else ns.map DependencyNode.name ++ [node.name] := by
  induction ns with
  | nil => simp [put]
  | cons n ns ih =>
    by_cases h : n.name = node.name
    · simp [put, h]
    · have h' : ¬ node.name = n.name := fun e => h e.symm
      simp only [put, h, h', if_false, List.map_cons, ih, List.mem_cons, false_or]
      split <;> simp

theorem nodup_put (node : DependencyNode) {ns : List DependencyNode}
    (h : (ns.map DependencyNode.name).Nodup) : ((put node ns).map DependencyNode.name).Nodup := by
  rw [names_put]
  split
  · exact h
  · next hn =>
    refine List.nodup_append.2 ⟨h, by simp, ?_⟩
    intro a ha b hb hab
    rw [hab, List.mem_singleton.1 hb] at ha
    exact hn ha

theorem nodup_putAll (nodes : List DependencyNode) {ns : List DependencyNode}
    (h : (ns.map DependencyNode.name).Nodup) :
    ((nodes.foldl (fun ns n => put n ns) ns).map DependencyNode.name).Nodup := by
  induction nodes generalizing ns with
  | nil => exact h
  | cons n nodes ih => exact ih (nodup_put n h)

def ofNodes (nodes : List DependencyNode) : DependencyGraph where
  nodes := nodes.foldl (fun ns n => put n ns) []
  distinct := nodup_putAll nodes (by simp)

/-- The dependencies of a model, if it is in the graph. -/
def dependencies (g : DependencyGraph) (name : String) : Option (List String) :=
  (g.get? name).map DependencyNode.deps

end DependencyGraph

/-- Every selected model with its dependencies, names possibly repeated. -/
def Selection.analyses (s : Selection) : List DependencyNode :=
  s.models.map fun m => ⟨m, m.dependencies s.scope⟩

def Selection.dependencyGraph (s : Selection) : DependencyGraph := .ofNodes s.analyses

end ZodGraph
