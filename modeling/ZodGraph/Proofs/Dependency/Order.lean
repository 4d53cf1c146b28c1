import ZodGraph.Proofs.Dependency.Walk

/-!
The order of definitions: each model of the graph once, and every dependency first unless it
leads back to the model that has it.
-/

namespace ZodGraph

open Relation (ReflTransGen TransGen)

variable {g : DependencyGraph} {w w' : Walk}

namespace Walk

/-- What every move keeps, a run keeps. -/
theorem run_induction {P : Walk → Prop} (step : ∀ w w', Invariant g w → Move g w w' → P w → P w')
    (n : Nat) (inv : Invariant g w) (h : P w) : Invariant g (w.run g n) ∧ P (w.run g n) := by
  induction n generalizing w with
  | zero => exact ⟨inv, h⟩
  | succ n ih =>
    rw [run]
    by_cases hnil : w.stack = []
    · simpa [hnil] using ⟨inv, h⟩
    · have move := inv.move hnil
      rw [if_neg (by simpa using hnil)]
      exact ih (inv.of_move move) (step w _ inv move h)

/-- A run with as many steps as there is work comes to its end. -/
theorem run_stack {n : Nat} (inv : Invariant g w) (h : w.work g ≤ n) :
    (w.run g n).stack = [] := by
  induction n generalizing w with
  | zero =>
    show w.stack = []
    exact stack_eq_nil inv (by omega)
  | succ n ih =>
    rw [run]
    by_cases hnil : w.stack = []
    · simp [hnil]
    · have move := inv.move hnil
      have hwork := move.work_eq inv
      rw [if_neg (by simpa using hnil)]
      exact ih (inv.of_move move) (by omega)

/-- A walk between two searches. -/
structure Resting (g : DependencyGraph) (w : Walk) : Prop where
  inv : Invariant g w
  empty : w.stack = []

lemma resting_init : Resting g {} where
  inv := by constructor <;> simp [path, Looked]
  empty := rfl

lemma Resting.resolved_of_seen (rest : Resting g w) {n : String} (h : w.Seen n) :
    n ∈ w.resolved := by
  simpa [Seen, path, rest.empty] using h

lemma Resting.enter (rest : Resting g w) {root : String} (known : root ∈ g.names)
    (new : root ∉ w.resolved) : Invariant g (w.enter root) := by
  have hpath : (w.enter root).path = [root] := by
    simp [path, Walk.enter, rest.empty]
  have hvisiting : w.visiting = [] := by
    simpa [path, rest.empty] using rest.inv.visiting
  refine ⟨by simp [hpath], by simpa [hpath] using known, by simp [hpath], ?_, rest.inv.resolved,
    ?_, ?_, rest.inv.once, rest.inv.decls⟩
  · rw [hpath]
    simp [Walk.enter, hvisiting]
  · rw [hpath]
    simpa [Walk.enter] using new
  · intro m i hm node get
    obtain ⟨rfl, rfl⟩ : m = root ∧ i = 0 := by simpa [Walk.enter, rest.empty] using hm
    simp

end Walk

namespace DependencyGraph

open Walk

/-- A search from one model ends, keeps what its start and its moves keep, and forgets nothing
it has seen. -/
lemma visit_spec {P : Walk → Prop}
    (start : ∀ w root, Resting g w → P w → P (w.enter root))
    (step : ∀ w w', Invariant g w → Move g w w' → P w → P w')
    (rest : Resting g w) (h : P w) {root : String} (known : root ∈ g.names) :
    Resting g (g.visit w root) ∧ P (g.visit w root) ∧
      ∀ n, n = root ∨ n ∈ w.resolved → n ∈ (g.visit w root).resolved := by
  unfold visit
  by_cases hdone : root ∈ w.resolved
  · rw [if_pos hdone]
    exact ⟨rest, h, by rintro n (rfl | hn) <;> assumption⟩
  · rw [if_neg hdone]
    have inv := rest.enter known hdone
    -- the run keeps `P` and, beside it, every name seen at its start
    obtain ⟨inv', hP, hseen⟩ := run_induction
      (P := fun u => P u ∧ ∀ n, (w.enter root).Seen n → u.Seen n)
      (fun u u' hu move hPu => ⟨step u u' hu move hPu.1, fun n hn => move.seen (hPu.2 n hn)⟩)
      g.size inv ⟨start w root rest h, fun _ hn => hn⟩
    have rest' : Resting g ((w.enter root).run g g.size) :=
      ⟨inv', run_stack inv (work_le_size g _)⟩
    refine ⟨rest', hP, fun n hn => rest'.resolved_of_seen (hseen n ?_)⟩
    rcases hn with rfl | hn
    · exact Or.inr (by simp [path, Walk.enter])
    · exact Or.inl hn

/-- **The whole search** ends, keeps what its starts and its moves keep, and resolves every
model. -/
theorem walk_induction {P : Walk → Prop} (init : P {})
    (start : ∀ w root, Resting g w → P w → P (w.enter root))
    (step : ∀ w w', Invariant g w → Move g w w' → P w → P w') :
    Resting g g.walk ∧ P g.walk ∧ ∀ n ∈ g.names, n ∈ g.walk.resolved := by
  have fold : ∀ (roots : List String), (∀ r ∈ roots, r ∈ g.names) → ∀ w, Resting g w → P w →
      Resting g (roots.foldl g.visit w) ∧ P (roots.foldl g.visit w) ∧
        ∀ n, n ∈ roots ∨ n ∈ w.resolved → n ∈ (roots.foldl g.visit w).resolved := by
    intro roots
    induction roots with
    | nil => exact fun _ w rest h => ⟨rest, h, by simp⟩
    | cons r roots ih =>
      intro hroots w rest h
      obtain ⟨rest', h', hres⟩ := visit_spec start step rest h (hroots r (by simp))
      obtain ⟨rest'', h'', hres'⟩ := ih (fun q hq => hroots q (by simp [hq])) _ rest' h'
      refine ⟨rest'', h'', fun n hn => hres' n ?_⟩
      rcases hn with hn | hn
      · rcases List.mem_cons.1 hn with rfl | hn
        · exact Or.inr (hres n (Or.inl rfl))
        · exact Or.inl hn
      · exact Or.inr (hres n (Or.inr hn))
  obtain ⟨rest, h, hres⟩ := fold g.names (fun _ hr => hr) {} resting_init init
  exact ⟨rest, h, fun n hn => hres n (Or.inl hn)⟩

lemma resting_walk (g : DependencyGraph) : Resting g g.walk :=
  (walk_induction (P := fun _ => True) trivial (fun _ _ _ _ => trivial)
    fun _ _ _ _ _ => trivial).1

lemma resolved_walk {n : String} (h : n ∈ g.names) : n ∈ g.walk.resolved :=
  (walk_induction (P := fun _ => True) trivial (fun _ _ _ _ => trivial)
    fun _ _ _ _ _ => trivial).2.2 n h

/-! ### Each model once -/

lemma nodup_order (g : DependencyGraph) : (g.order.map Model.name).Nodup := by
  have h := (resting_walk g).inv.once
  rw [(resting_walk g).inv.resolved] at h
  exact List.nodup_reverse.1 h

lemma exists_node_of_mem_order {m : Model} (h : m ∈ g.order) : ∃ node ∈ g.nodes, node.decl = m :=
  (resting_walk g).inv.decls m h

lemma mem_order_names {n : String} : n ∈ g.order.map Model.name ↔ n ∈ g.names := by
  constructor
  · intro h
    obtain ⟨m, hm, rfl⟩ := List.mem_map.1 h
    obtain ⟨node, hnode, rfl⟩ := exists_node_of_mem_order hm
    exact List.mem_map.2 ⟨node, hnode, rfl⟩
  · intro h
    exact (resting_walk g).inv.mem_resolved_iff.1 (resolved_walk h)

/-! ### Dependencies first -/

/-- In a list of models every dependency comes first, or leads back to the model that has it. -/
def Settled (g : DependencyGraph) (order : List Model) : Prop :=
  ∀ before m after, order = before ++ m :: after → ∀ n, g.Edge m.name n →
    n ∈ before.map Model.name ∨ TransGen g.Edge n m.name

lemma Settled.snoc {order : List Model} {m : Model} (h : Settled g order)
    (hm : ∀ n, g.Edge m.name n → n ∈ order.map Model.name ∨ TransGen g.Edge n m.name) :
    Settled g (order ++ [m]) := by
  intro before m' after heq
  rcases List.eq_nil_or_concat after with rfl | ⟨after', last, rfl⟩
  · obtain ⟨rfl, rfl⟩ : order = before ∧ m = m' := by simpa using List.append_inj' heq rfl
    exact hm
  · rw [List.concat_eq_append, ← List.cons_append, ← List.append_assoc] at heq
    exact h before m' after' (List.append_inj' heq rfl).1

/-- Along a path of edges every name leads to the end. -/
lemma reaches_top {top : String} {l : List String}
    (h : (top :: l).IsChain fun upper lower => g.Edge lower upper) {n : String}
    (hn : n ∈ top :: l) : ReflTransGen g.Edge n top := by
  induction l generalizing top with
  | nil =>
    obtain rfl : n = top := by simpa using hn
    exact .refl
  | cons lower l ih =>
    obtain ⟨hedge, hl⟩ := List.isChain_cons_cons.1 h
    rcases List.mem_cons.1 hn with rfl | hn
    · exact .refl
    · exact (ih hl hn).tail hedge

lemma settled_of_move (inv : Invariant g w) (move : Move g w w') (h : Settled g w.order) :
    Settled g w'.order := by
  cases move with
  | pass | drop | enter => exact h
  | @finish name next rest node top get none? =>
    have hpath := path_of_top top
    obtain ⟨hmem, hname⟩ := DependencyGraph.get?_eq_some_iff.1 get
    refine h.snoc fun n hedge => ?_
    rw [show node.decl.name = name from hname] at hedge ⊢
    obtain ⟨node', get', hdep, known⟩ := id hedge
    obtain rfl : node = node' := Option.some.inj (get.symm.trans get')
    -- the cursor stands behind the last dependency, so all of them have been looked at
    have hlook := (inv.looked name next (by simp [top]) node get).2 n
      (by rwa [List.take_of_length_le (List.getElem?_eq_none_iff.1 none?)]) known
    rcases hlook with hres | hpathn
    · exact Or.inl (inv.mem_resolved_iff.1 hres)
    · right
      have hreach := reaches_top (hpath ▸ inv.chain) (hpath ▸ hpathn)
      rcases Relation.reflTransGen_iff_eq_or_transGen.1 hreach with heq | htrans
      · rw [← heq] at hedge ⊢
        exact .single hedge
      · exact htrans

/-- **Only edges that close a cycle are given up.** -/
theorem settled_order (g : DependencyGraph) : Settled g g.order :=
  (walk_induction (P := fun w => Settled g w.order)
    (by intro before m after h; simp at h) (fun _ _ _ h => h)
    fun _ _ inv move h => settled_of_move inv move h).2.1

end DependencyGraph

end ZodGraph
