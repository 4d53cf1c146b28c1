import ZodGraph.Proofs.Dependency.Order

/-!
The walks that a search goes through, one at each head of its loop, and between the searches from
two models. At every one of them the marks agree with the stack and with the order, so no mark
outlives the search that set it and no edge is taken for one that closes a cycle by mistake.
-/

namespace ZodGraph

variable {g : DependencyGraph} {w : Walk}

lemma Walk.Resting.visiting_eq_nil (rest : Resting g w) : w.visiting = [] := by
  have hpath : w.path = [] := by simp [path, rest.empty]
  rw [rest.inv.visiting, hpath]

namespace DependencyGraph

open Walk

/-- The walk after the searches from some models in turn. -/
def searched (g : DependencyGraph) (roots : List String) : Walk := roots.foldl g.visit {}

/-- The walk stands at the head of the loop: some models have been searched from, the next is not
resolved yet, and the loop has gone through some iterations from there. -/
inductive Head (g : DependencyGraph) : Walk → Prop
  | intro {done left : List String} {root : String} (names : g.names = done ++ root :: left)
      (new : root ∉ (g.searched done).resolved) (n : Nat) :
      Head g (((g.searched done).enter root).run g n)

/-- Every search comes to the end of its path. -/
lemma resting_searched {roots : List String} (h : ∀ r ∈ roots, r ∈ g.names) :
    Resting g (g.searched roots) := by
  induction roots using List.reverseRecOn with
  | nil => exact resting_init
  | append_singleton roots root ih =>
    obtain ⟨hroots, hroot⟩ := List.forall_mem_append.1 h
    have hlast : g.searched (roots ++ [root]) = g.visit (g.searched roots) root := by
      simp [searched]
    rw [hlast]
    exact (visit_spec (P := fun _ => True) (fun _ _ _ _ => trivial) (fun _ _ _ _ _ => trivial)
      (ih hroots) trivial (hroot root (by simp))).1

lemma Head.invariant (h : g.Head w) : Invariant g w := by
  obtain ⟨names, new, n⟩ := h
  have hdone := resting_searched (g := g) fun r hr => names ▸ List.mem_append_left _ hr
  have hstart := hdone.enter (names ▸ by simp) new
  exact (run_induction (P := fun _ => True) (fun _ _ _ _ _ => trivial) n hstart trivial).1

/-- **What holds at every head of the loop.** The names on the stack are distinct models of the
graph, each a dependency of the one below it. The marks `visiting` are those of the names on the
stack, and the marks `resolved` those of the models in order; no name has both. What stands before
the cursor of a model on the stack is outside the graph, resolved or on the stack itself. The end
of the path is in the graph, so it is never given up without being finished. Between two searches
the stack and the marks `visiting` are empty. -/
theorem loop_invariant (g : DependencyGraph) :
    (∀ w, g.Head w →
      w.path.Nodup ∧
      (∀ n ∈ w.path, n ∈ g.names) ∧
      (w.path.IsChain fun upper lower => g.Edge lower upper) ∧
      (∀ n, n ∈ w.visiting ↔ n ∈ w.path) ∧
      (∀ n, n ∈ w.resolved ↔ n ∈ w.order.map Model.name) ∧
      (∀ n ∈ w.visiting, n ∉ w.resolved) ∧
      (∀ name next, (name, next) ∈ w.stack → ∀ deps, g.dependencies name = some deps →
        ∀ n ∈ deps.take next, n ∉ g.names ∨ n ∈ w.resolved ∨ n ∈ w.path) ∧
      (∀ name next rest, w.stack = (name, next) :: rest → g.get? name ≠ none)) ∧
    (∀ done left, g.names = done ++ left →
      (g.searched done).stack = [] ∧ (g.searched done).visiting = []) := by
  refine ⟨fun w head => ?_, fun done left names => ?_⟩
  · have inv := head.invariant
    refine ⟨inv.simple, inv.known, inv.chain, fun n => by rw [inv.visiting],
      fun n => inv.mem_resolved_iff, inv.visiting ▸ inv.apart, ?_, ?_⟩
    · intro name next hmem deps hdeps n hn
      obtain ⟨node, get, rfl⟩ := dependencies_eq_some_iff.1 hdeps
      by_cases known : n ∈ g.names
      · exact Or.inr ((inv.looked name next hmem node get).2 n hn known)
      · exact Or.inl known
    · intro name next rest top
      obtain ⟨node, get⟩ := exists_get?_of_mem (inv.known name (by simp [path, top]))
      simp [get]
  · have rest := resting_searched (g := g) fun r hr => names ▸ List.mem_append_left left hr
    exact ⟨rest.empty, rest.visiting_eq_nil⟩

/-- A cycle of three models, a fourth that hangs on it, and a name outside the graph. -/
def detour : DependencyGraph where
  nodes := [⟨{ name := "X" }, ["Y"]⟩, ⟨{ name := "Y" }, ["Kind", "Z", "Leaf"]⟩,
    ⟨{ name := "Z" }, ["X"]⟩, ⟨{ name := "Leaf" }, []⟩]
  distinct := by decide

theorem loop_invariant_detour :
    ∃ w, detour.Head w ∧ w.stack = [("Leaf", 0), ("Y", 3), ("X", 1)] ∧ w.resolved = ["Z"] ∧
      (∀ n, n ∈ w.visiting ↔ n ∈ ["Leaf", "Y", "X"]) ∧
      (∀ n ∈ ["Kind", "Z", "Leaf"], n ∉ detour.names ∨ n ∈ w.resolved ∨ n ∈ w.path) ∧
      (detour.searched ["X", "Y"]).visiting = [] := by
  have head : detour.Head (((detour.searched []).enter "X").run detour 6) :=
    @Head.intro detour [] ["Y", "Z", "Leaf"] "X" rfl (by simp [searched]) 6
  obtain ⟨-, -, -, hvisiting, -, -, hlooked, -⟩ := (loop_invariant detour).1 _ head
  exact ⟨_, head, by decide, by decide, hvisiting,
    hlooked "Y" 3 (by decide) ["Kind", "Z", "Leaf"] rfl,
    ((loop_invariant detour).2 ["X", "Y"] ["Z", "Leaf"] rfl).2⟩

end DependencyGraph

end ZodGraph
