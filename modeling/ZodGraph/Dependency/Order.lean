import ZodGraph.Dependency

/-!
The order in which models are defined: dependencies first. The search goes depth first from
each model in turn and keeps its path on a stack. An edge back into the path closes a cycle and
is dropped.
-/

namespace ZodGraph

/-- The state of the search. -/
structure Walk where
  /-- The path, its end first: a name and how many of its dependencies have been looked at. -/
  stack : List (String × Nat) := []
  visiting : List String := []
  resolved : List String := []
  /-- The models done, in order. -/
  order : List Model := []
  /-- Edges that close a cycle, in order. -/
  dropped : List (String × String) := []
deriving Inhabited

namespace Walk

/-- Starts a path at a name. -/
def enter (w : Walk) (name : String) : Walk :=
  { w with stack := (name, 0) :: w.stack, visiting := name :: w.visiting }

/-- Looks at the next dependency of the end of the path, or finishes it. -/
def step (g : DependencyGraph) (w : Walk) : Walk :=
  match w.stack with
  | [] => w
  | (name, next) :: rest =>
    match g.get? name with
    | none => { w with stack := rest }
    | some node =>
      match node.deps[next]? with
      | some dep =>
        let w := { w with stack := (name, next + 1) :: rest }
        if dep ∉ g.names ∨ dep ∈ w.resolved then w
        else if dep ∈ w.visiting then { w with dropped := w.dropped ++ [(name, dep)] }
        else w.enter dep
      | none =>
        { w with
          stack := rest
          visiting := w.visiting.erase name
          resolved := name :: w.resolved
          order := w.order ++ [node.decl] }

/-- Steps until the path is empty, at most `n` times. -/
def run (g : DependencyGraph) : Nat → Walk → Walk
  | 0, w => w
  | n + 1, w => if w.stack.isEmpty then w else run g n (w.step g)

end Walk

namespace DependencyGraph

/-- A walk visits each node and each of its dependencies once. -/
def size (g : DependencyGraph) : Nat :=
  g.nodes.length + (g.nodes.flatMap DependencyNode.deps).length

/-- Searches from one model, unless it is done. -/
def visit (g : DependencyGraph) (w : Walk) (root : String) : Walk :=
  if root ∈ w.resolved then w else (w.enter root).run g g.size

/-- The finished search. -/
def walk (g : DependencyGraph) : Walk := g.names.foldl g.visit {}

/-- The models, dependencies first. -/
def order (g : DependencyGraph) : List Model := g.walk.order

/-- The edges given up to break cycles. -/
def droppedEdges (g : DependencyGraph) : List (String × String) := g.walk.dropped

end DependencyGraph

end ZodGraph
