import ZodGraph.Proofs.Dependency.Order

/-!
The search with a stack is the plain recursive one.

`postOrder` visits a model by recursion on the models off the path. A frame of the stack is a
suspended visit: when the loop has come to the end of the frame, the order is the one the visit
gives. The loop itself is `Iterates`, which counts its iterations and knows no bound, and
`Searches` starts it from one root after the other. Each iteration is one unit of the work that
is left, so their number is the size of the graph.
-/

namespace ZodGraph

variable {g : DependencyGraph} {w w' : Walk}

namespace DependencyGraph

variable {path : List String} {done : List Model} {name : String} {node : DependencyNode}

/-! ### The recursive search -/

/-- The models that are not on a path. -/
def off (g : DependencyGraph) (path : List String) : List String := g.names.filter (· ∉ path)

lemma length_off_lt (known : name ∈ g.names) (new : name ∉ path) :
    (g.off (name :: path)).length < (g.off path).length := by
  have hoff : g.off (name :: path) = (g.off path).filter (· ≠ name) := by
    unfold off
    rw [List.filter_filter]
    refine List.filter_congr fun n _ => ?_
    simp
  have hmem : name ∈ g.off path := by simp [off, known, new]
  rw [hoff]
  exact List.length_filter_lt_length_iff_exists.2 ⟨name, hmem, by simp⟩

/-- Visits a model with what is done so far. One that is done or on the path is skipped; any
other is done after the models it depends on, visited in their order. -/
def postOrder (g : DependencyGraph) (path : List String) (done : List Model) (name : String) :
    List Model :=
  if _skip : name ∈ done.map Model.name ∨ name ∈ path then done
  else
    match _get : g.get? name with
    | none => done
    | some node =>
      (node.deps.filter (· ∈ g.names)).foldl
        (fun done dep => g.postOrder (name :: path) done dep) done ++ [node.decl]
termination_by (g.off path).length
decreasing_by exact length_off_lt (mem_names_of_get? _get) (not_or.1 _skip).2

/-- Visits every model in turn. -/
def depthFirst (g : DependencyGraph) : List Model := g.names.foldl (g.postOrder []) []

/-- Visits some dependencies of the end of a path, in order. -/
def postOrderAll (g : DependencyGraph) (path : List String) (done : List Model)
    (deps : List String) : List Model :=
  (deps.filter (· ∈ g.names)).foldl (g.postOrder path) done

lemma postOrderAll_cons {dep : String} {deps : List String} (known : dep ∈ g.names) :
    g.postOrderAll path done (dep :: deps) =
      g.postOrderAll path (g.postOrder path done dep) deps := by
  simp [postOrderAll, known]

lemma postOrder_of_skip (h : name ∈ done.map Model.name ∨ name ∈ path) :
    g.postOrder path done name = done := by
  rw [postOrder, dif_pos h]

lemma postOrderAll_cons_of_skip {dep : String} {deps : List String}
    (h : dep ∉ g.names ∨ dep ∈ done.map Model.name ∨ dep ∈ path) :
    g.postOrderAll path done (dep :: deps) = g.postOrderAll path done deps := by
  by_cases known : dep ∈ g.names
  · rw [postOrderAll_cons known, postOrder_of_skip (h.resolve_left (not_not.2 known))]
  · simp [postOrderAll, known]

lemma postOrder_of_new (new : name ∉ done.map Model.name) (off : name ∉ path)
    (get : g.get? name = some node) :
    g.postOrder path done name =
      g.postOrderAll (name :: path) done node.deps ++ [node.decl] := by
  rw [postOrder, dif_neg (not_or.2 ⟨new, off⟩)]
  split
  · next hnone => cases hnone.symm.trans get
  · next other hget =>
    obtain rfl : node = other := Option.some.inj (get.symm.trans hget)
    rfl

end DependencyGraph

namespace Walk

/-! ### The loop -/

/-- The loop goes from one walk to another in some number of iterations. -/
inductive Iterates (g : DependencyGraph) : Nat → Walk → Walk → Prop where
  | refl (w : Walk) : Iterates g 0 w w
  | head {n w w'} (busy : w.stack ≠ []) (rest : Iterates g n (w.step g) w') :
      Iterates g (n + 1) w w'

lemma Iterates.trans {m n : Nat} {w'' : Walk} (h : Iterates g m w w') (h' : Iterates g n w' w'') :
    Iterates g (m + n) w w'' := by
  induction h with
  | refl => simpa using h'
  | @head k _ _ busy _ ih =>
    rw [Nat.add_right_comm]
    exact .head busy (ih h')

/-- Iterations keep the invariant, and each is one unit of work. -/
lemma Iterates.work_eq {n : Nat} (h : Iterates g n w w') (inv : Invariant g w) :
    Invariant g w' ∧ w.work g = n + w'.work g := by
  induction h with
  | refl => exact ⟨inv, by simp⟩
  | head busy _ ih =>
    have move := inv.move busy
    have hone := move.work_eq inv
    obtain ⟨inv', hwork⟩ := ih (inv.of_move move)
    exact ⟨inv', by omega⟩

/-- The loop ends in one way only. -/
lemma Iterates.unique {m n : Nat} {w'' : Walk} (h : Iterates g m w w') (hend : w'.stack = [])
    (h' : Iterates g n w w'') (hend' : w''.stack = []) : m = n ∧ w' = w'' := by
  induction h generalizing n with
  | refl =>
    cases h' with
    | refl => exact ⟨rfl, rfl⟩
    | head busy => exact absurd hend busy
  | head busy _ ih =>
    cases h' with
    | refl => exact absurd hend' busy
    | head _ rest =>
      obtain ⟨rfl, rfl⟩ := ih hend rest
      exact ⟨rfl, rfl⟩

/-- A bounded run ends where the loop does, if the bound is large enough. -/
lemma Iterates.run_eq {m n : Nat} (h : Iterates g m w w') (hend : w'.stack = []) (hle : m ≤ n) :
    w.run g n = w' := by
  induction h generalizing n with
  | refl w =>
    cases n with
    | zero => rfl
    | succ n => simp [run, hend]
  | @head k w w' busy _ ih =>
    obtain ⟨n, rfl⟩ : ∃ j, n = j + 1 := ⟨n - 1, by omega⟩
    rw [run, if_neg (by simpa using busy)]
    exact ih hend (by omega)

/-! ### Frames as suspended visits -/

open DependencyGraph (postOrder_of_skip postOrder_of_new)

/-- The loop comes to the end of the frame on top, and puts the given models in order. -/
def Leaves (g : DependencyGraph) (w : Walk) (rest : List (String × Nat)) (order : List Model) :
    Prop :=
  ∃ n w', Iterates g n w w' ∧ w'.stack = rest ∧ w'.order = order

lemma Leaves.of_step {rest : List (String × Nat)} {order : List Model} (busy : w.stack ≠ [])
    (h : Leaves g (w.step g) rest order) : Leaves g w rest order := by
  obtain ⟨n, w', hiter, hstack, horder⟩ := h
  exact ⟨n + 1, w', .head busy hiter, hstack, horder⟩

variable {name : String} {next : Nat} {rest : List (String × Nat)} {node : DependencyNode}

/-- At a dependency the search moves on or enters it. It moves on only at one that a visit
skips. -/
lemma step_of_dep {dep : String} (top : w.stack = (name, next) :: rest)
    (get : g.get? name = some node) (dep? : node.deps[next]? = some dep) :
    (∃ dropped, w.step g = { w with stack := (name, next + 1) :: rest, dropped := dropped } ∧
      (dep ∉ g.names ∨ dep ∈ w.resolved ∨ dep ∈ w.visiting)) ∨
    (w.step g = { w with
      stack := (dep, 0) :: (name, next + 1) :: rest
      visiting := dep :: w.visiting } ∧ dep ∈ g.names) := by
  simp only [step, top, get, dep?]
  split_ifs with hold hback
  · exact Or.inl ⟨w.dropped, rfl, by tauto⟩
  · exact Or.inl ⟨w.dropped ++ [(name, dep)], rfl, Or.inr (Or.inr hback)⟩
  · exact Or.inr ⟨rfl, by tauto⟩

/-- A frame ends with its model, after visits to the dependencies behind its cursor. -/
lemma leaves_of_visits {path : List String} (get : g.get? name = some node)
    (visits : ∀ (u : Walk) (dep : String) (below : List (String × Nat)), Invariant g u →
      u.stack = (dep, 0) :: below → below.map Prod.fst = path →
      Leaves g u below (g.postOrder path u.order dep))
    (inv : Invariant g w) (top : w.stack = (name, next) :: rest) (hpath : w.path = path) :
    Leaves g w rest (g.postOrderAll path w.order (node.deps.drop next) ++ [node.decl]) := by
  have busy : w.stack ≠ [] := by simp [top]
  -- on the number of dependencies behind the cursor
  induction hleft : node.deps.length - next generalizing w next with
  | zero =>
    have hnone : node.deps[next]? = none := List.getElem?_eq_none (by omega)
    have hdrop : node.deps.drop next = [] := List.drop_of_length_le (by omega)
    refine .of_step busy ⟨0, _, .refl _, ?_, ?_⟩
    · simp [step, top, get, hnone]
    · simp [step, top, get, hnone, hdrop, DependencyGraph.postOrderAll]
  | succ k ih =>
    have hlt : next < node.deps.length := by omega
    have inv' := inv.of_move (inv.move busy)
    have hback : ((name, next + 1) :: rest).map Prod.fst = path := hpath ▸ (path_of_top top).symm
    rw [List.drop_eq_getElem_cons hlt]
    refine .of_step busy ?_
    rcases step_of_dep top get (List.getElem?_eq_getElem hlt) with ⟨dropped, hstep, hskip⟩ |
      ⟨hstep, known⟩
    · rw [hstep] at inv' ⊢
      rw [inv.mem_resolved_iff, inv.visiting, hpath] at hskip
      rw [DependencyGraph.postOrderAll_cons_of_skip hskip]
      exact ih inv' rfl hback (by simp) (by omega)
    · rw [hstep] at inv' ⊢
      rw [DependencyGraph.postOrderAll_cons known]
      -- the visit leaves this frame on top, and the rest follows from there
      obtain ⟨m, u, hvisit, hstack, horder⟩ := visits _ _ _ inv' rfl hback
      obtain ⟨n, u', hrest, hstack', horder'⟩ := ih (hvisit.work_eq inv').1 hstack
        (by rw [Walk.path, hstack, hback]) (by simp [hstack]) (by omega)
      exact ⟨m + n, u', hvisit.trans hrest, hstack', by rw [horder', horder]⟩

/-- **A frame is a suspended visit**: the loop ends it with the order that the visit gives. -/
theorem leaves_postOrder (inv : Invariant g w) (top : w.stack = (name, 0) :: rest) :
    Leaves g w rest (g.postOrder (rest.map Prod.fst) w.order name) := by
  -- on the number of models off the path, as the recursion of the visit
  induction hoff : (g.off (rest.map Prod.fst)).length using Nat.strong_induction_on
    generalizing w name rest with
  | _ k ih =>
    have hpath := path_of_top top
    have known : name ∈ g.names := inv.known name (by simp [hpath])
    have new : name ∉ w.order.map Model.name := by
      rw [← inv.mem_resolved_iff]
      exact inv.apart name (by simp [hpath])
    have off : name ∉ rest.map Prod.fst := (List.nodup_cons.1 (hpath ▸ inv.simple)).1
    have hless := DependencyGraph.length_off_lt known off
    obtain ⟨node, get⟩ := DependencyGraph.exists_get?_of_mem known
    rw [postOrder_of_new new off get]
    refine leaves_of_visits get (fun u dep below hu htop hbelow => ?_) inv top hpath
    rw [← hbelow] at hless ⊢
    exact ih _ (by omega) hu htop rfl

/-! ### All roots -/

/-- The loop is started from one root after the other, unless it is resolved, and goes on until
the stack is empty. -/
inductive Searches (g : DependencyGraph) : List String → Nat → Walk → Walk → Prop where
  | nil (w : Walk) : Searches g [] 0 w w
  | skip {root roots n w w'} (old : root ∈ w.resolved) (rest : Searches g roots n w w') :
      Searches g (root :: roots) n w w'
  | visit {root roots m n w u w'} (new : root ∉ w.resolved) (loop : Iterates g m (w.enter root) u)
      (empty : u.stack = []) (rest : Searches g roots n u w') :
      Searches g (root :: roots) (m + n) w w'

lemma Searches.unique {roots : List String} {m n : Nat} {w'' : Walk} (h : Searches g roots m w w')
    (h' : Searches g roots n w w'') : m = n ∧ w' = w'' := by
  induction h generalizing n with
  | nil =>
    cases h'
    exact ⟨rfl, rfl⟩
  | skip old _ ih =>
    cases h' with
    | skip _ rest => exact ih rest
    | visit new => exact absurd old new
  | visit new loop empty _ ih =>
    cases h' with
    | skip old => exact absurd old new
    | visit _ loop' empty' rest =>
      obtain ⟨rfl, rfl⟩ := loop.unique empty loop' empty'
      obtain ⟨rfl, rfl⟩ := ih rest
      exact ⟨rfl, rfl⟩

lemma work_enter (empty : w.stack = []) (root : String) : (w.enter root).work g = w.work g := by
  have hcursor : ∀ n, (w.enter root).cursor n = w.cursor n := by
    intro n
    rcases eq_or_ne n root with rfl | hne
    · simp [cursor, enter, empty]
    · rw [cursor_cons_ne rfl hne, empty]
      simp [cursor, empty]
  have hdue : ∀ node ∈ g.nodes, (w.enter root).due node = w.due node := by
    intro node _
    unfold due
    rw [hcursor]
    rfl
  exact congrArg List.sum (List.map_congr_left hdue)

/-- The search from a new root is one visit, and takes an iteration for each unit of work. -/
lemma Resting.visit_new (rest : Resting g w) {root : String} (known : root ∈ g.names)
    (new : root ∉ w.resolved) : ∃ n, Iterates g n (w.enter root) (g.visit w root) ∧
      Resting g (g.visit w root) ∧ w.work g = n + (g.visit w root).work g ∧
      (g.visit w root).order = g.postOrder [] w.order root := by
  have inv := rest.enter known new
  have top : (w.enter root).stack = [(root, 0)] := by simp [Walk.enter, rest.empty]
  obtain ⟨n, w', hloop, hempty, horder⟩ := leaves_postOrder inv top
  obtain ⟨inv', hwork⟩ := hloop.work_eq inv
  have hbound := work_le_size g (w.enter root)
  have hvisit : g.visit w root = w' := by
    rw [DependencyGraph.visit, if_neg new]
    exact hloop.run_eq hempty (by omega)
  rw [hvisit]
  exact ⟨n, hloop, ⟨inv', hempty⟩, work_enter rest.empty root ▸ hwork, horder⟩

lemma Resting.searches (rest : Resting g w) {roots : List String} (known : ∀ r ∈ roots, r ∈ g.names) :
    ∃ n, Searches g roots n w (roots.foldl g.visit w) ∧
      w.work g = n + (roots.foldl g.visit w).work g ∧
      (roots.foldl g.visit w).order = roots.foldl (g.postOrder []) w.order := by
  induction roots generalizing w with
  | nil => exact ⟨0, .nil w, by simp, rfl⟩
  | cons root roots ih =>
    have hroots : ∀ r ∈ roots, r ∈ g.names := fun r hr => known r (by simp [hr])
    by_cases hdone : root ∈ w.resolved
    · obtain ⟨n, hsearch, hwork, horder⟩ := ih rest hroots
      have hvisit : g.visit w root = w := if_pos hdone
      have hskip : g.postOrder [] w.order root = w.order :=
        postOrder_of_skip (Or.inl (rest.inv.mem_resolved_iff.1 hdone))
      rw [List.foldl_cons, List.foldl_cons, hvisit, hskip]
      exact ⟨n, .skip hdone hsearch, hwork, horder⟩
    · obtain ⟨m, hloop, rest', hwork, horder⟩ := rest.visit_new (known root (by simp)) hdone
      obtain ⟨n, hsearch, hwork', horder'⟩ := ih rest' hroots
      rw [List.foldl_cons, List.foldl_cons, ← horder]
      exact ⟨m + n, .visit hdone hloop rest'.empty hsearch, by omega, horder'⟩

/-- At the start all work is left. -/
lemma work_init (g : DependencyGraph) : ({} : Walk).work g = g.size := by
  have hdue : ∀ node ∈ g.nodes, ({} : Walk).due node = node.deps.length + 1 := by
    intro node _
    simp [due, cursor]
  rw [size_eq_sum]
  exact congrArg List.sum (List.map_congr_left hdue)

lemma work_walk (g : DependencyGraph) : g.walk.work g = 0 := by
  refine List.sum_eq_zero fun k hk => ?_
  obtain ⟨node, hnode, rfl⟩ := List.mem_map.1 hk
  have hdone := DependencyGraph.resolved_walk (List.mem_map_of_mem (f := DependencyNode.name) hnode)
  simp [due, hdone]

end Walk

namespace DependencyGraph

open Walk

lemma searches_walk (g : DependencyGraph) : Searches g g.names g.size {} g.walk := by
  obtain ⟨n, hsearch, hwork, -⟩ := (resting_init (g := g)).searches fun _ h => h
  have hinit := work_init g
  have hdone : (g.names.foldl g.visit {}).work g = 0 := work_walk g
  obtain rfl : n = g.size := by omega
  exact hsearch

lemma order_eq_depthFirst (g : DependencyGraph) : g.order = g.depthFirst := by
  obtain ⟨-, -, -, horder⟩ := (resting_init (g := g)).searches fun _ h => h
  exact horder

/-- **The search with a stack is the recursive one**: both give the same order. The loop ends for
every graph, in one way only, and over all roots it takes one iteration for each model and one for
each entry in the lists of dependencies. -/
theorem order_and_iterations (g : DependencyGraph) :
    g.order = g.depthFirst ∧
    ∀ n w, Searches g g.names n {} w ↔
      n = g.nodes.length + (g.nodes.flatMap DependencyNode.deps).length ∧ w = g.walk := by
  refine ⟨order_eq_depthFirst g, fun n w => ⟨fun h => h.unique (searches_walk g), ?_⟩⟩
  rintro ⟨rfl, rfl⟩
  exact searches_walk g

end DependencyGraph

end ZodGraph
