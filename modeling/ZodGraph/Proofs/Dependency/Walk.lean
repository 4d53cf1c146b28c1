import Mathlib.Data.List.Chain
import ZodGraph.Dependency.Order
import ZodGraph.Proofs.Dependency.Graph

/-!
What holds of the search for an order at every moment, and that the search ends.

A move is one of four: a dependency is passed by, an edge into the path is dropped, a new
dependency is entered, or the end of the path is finished. The invariant is stated once and
carried through the moves; the work that is left shrinks by one with each of them.
-/

namespace ZodGraph

namespace Walk

open DependencyGraph (get?_eq_some_iff)

variable {g : DependencyGraph} {w w' : Walk}

/-- The names on the stack, the end of the path first. -/
def path (w : Walk) : List String := w.stack.map Prod.fst

/-- What one step can do. -/
inductive Move (g : DependencyGraph) (w : Walk) : Walk → Prop where
  | pass {name next rest node dep} (top : w.stack = (name, next) :: rest)
      (get : g.get? name = some node) (dep? : node.deps[next]? = some dep)
      (old : dep ∉ g.names ∨ dep ∈ w.resolved) :
      Move g w { w with stack := (name, next + 1) :: rest }
  | drop {name next rest node dep} (top : w.stack = (name, next) :: rest)
      (get : g.get? name = some node) (dep? : node.deps[next]? = some dep)
      (back : dep ∈ w.visiting) :
      Move g w { w with
        stack := (name, next + 1) :: rest
        dropped := w.dropped ++ [(name, dep)] }
  | enter {name next rest node dep} (top : w.stack = (name, next) :: rest)
      (get : g.get? name = some node) (dep? : node.deps[next]? = some dep)
      (known : dep ∈ g.names) (new : dep ∉ w.resolved) (off : dep ∉ w.visiting) :
      Move g w { w with
        stack := (dep, 0) :: (name, next + 1) :: rest
        visiting := dep :: w.visiting }
  | finish {name next rest node} (top : w.stack = (name, next) :: rest)
      (get : g.get? name = some node) (none? : node.deps[next]? = none) :
      Move g w { w with
        stack := rest
        visiting := w.visiting.erase name
        resolved := name :: w.resolved
        order := w.order ++ [node.decl] }

/-- A name the search has been at. -/
def Seen (w : Walk) (n : String) : Prop := n ∈ w.resolved ∨ n ∈ w.path

/-- All that a stack has looked at has been seen. -/
def Looked (g : DependencyGraph) (seen : String → Prop) (stack : List (String × Nat)) : Prop :=
  ∀ m next, (m, next) ∈ stack → ∀ node, g.get? m = some node →
    next ≤ node.deps.length ∧ ∀ n ∈ node.deps.take next, n ∈ g.names → seen n

/-- What holds of a walk between two steps. -/
structure Invariant (g : DependencyGraph) (w : Walk) : Prop where
  simple : w.path.Nodup
  known : ∀ n ∈ w.path, n ∈ g.names
  chain : w.path.IsChain fun upper lower => g.Edge lower upper
  visiting : w.visiting = w.path
  resolved : w.resolved = (w.order.map Model.name).reverse
  apart : ∀ n ∈ w.path, n ∉ w.resolved
  looked : Looked g w.Seen w.stack
  once : w.resolved.Nodup
  decls : ∀ m ∈ w.order, ∃ node ∈ g.nodes, node.decl = m

lemma Invariant.mem_resolved_iff (inv : Invariant g w) {n : String} :
    n ∈ w.resolved ↔ n ∈ w.order.map Model.name := by
  rw [inv.resolved, List.mem_reverse]

/-- A step that has something to do is a move: the branch for a name outside the graph is
never taken. -/
lemma Invariant.move (inv : Invariant g w) (h : w.stack ≠ []) : Move g w (w.step g) := by
  obtain ⟨⟨name, next⟩, rest, top⟩ := List.exists_cons_of_ne_nil h
  have hname : name ∈ g.names := inv.known name (by simp [path, top])
  obtain ⟨node, get⟩ := DependencyGraph.exists_get?_of_mem hname
  rcases hdep : node.deps[next]? with _ | dep
  · simpa [step, top, get, hdep] using Move.finish top get hdep
  · by_cases hold : dep ∉ g.names ∨ dep ∈ w.resolved
    · simpa [step, top, get, hdep, hold] using Move.pass top get hdep hold
    · have hnew : dep ∈ g.names ∧ dep ∉ w.resolved := by simpa using hold
      by_cases hback : dep ∈ w.visiting
      · simpa [step, top, get, hdep, hnew, hback] using Move.drop top get hdep hback
      · simpa [step, top, get, hdep, hnew, hback, enter] using
          Move.enter top get hdep hnew.1 hnew.2 hback

lemma path_of_top {name : String} {next : Nat} {rest : List (String × Nat)}
    (top : w.stack = (name, next) :: rest) : w.path = name :: rest.map Prod.fst := by
  simp [path, top]

/-- What has been seen stays so. -/
lemma Move.seen (move : Move g w w') {n : String} (h : w.Seen n) : w'.Seen n := by
  cases move with
  | pass top | drop top =>
    rcases h with h | h
    · exact Or.inl h
    · exact Or.inr (by simpa [path, top] using h)
  | enter top =>
    rcases h with h | h
    · exact Or.inl h
    · exact Or.inr (List.mem_cons_of_mem _ (by simpa [path, top] using h))
  | finish top =>
    rcases h with h | h
    · exact Or.inl (List.mem_cons_of_mem _ h)
    · rcases List.mem_cons.1 (path_of_top top ▸ h) with rfl | h
      · exact Or.inl List.mem_cons_self
      · exact Or.inr h

section Moves

variable {name dep : String} {next : Nat} {rest stack : List (String × Nat)}
  {node : DependencyNode} {seen seen' : String → Prop}

lemma edge_of_dep (get : g.get? name = some node) (dep? : node.deps[next]? = some dep)
    (known : dep ∈ g.names) : g.Edge name dep :=
  ⟨node, get, List.mem_of_getElem? dep?, known⟩

lemma Looked.mono (h : Looked g seen stack) (hs : ∀ n, seen n → seen' n) :
    Looked g seen' stack := fun m next hm node get =>
  ⟨(h m next hm node get).1, fun n hn known => hs n ((h m next hm node get).2 n hn known)⟩

lemma Looked.tail (h : Looked g seen ((name, next) :: rest)) : Looked g seen rest :=
  fun m i hm => h m i (List.mem_cons_of_mem _ hm)

lemma Looked.push (h : Looked g seen stack) : Looked g seen ((dep, 0) :: stack) := by
  intro m i hm other hget
  rcases List.mem_cons.1 hm with heq | hm
  · obtain ⟨rfl, rfl⟩ := Prod.mk.inj heq
    simp
  · exact h m i hm other hget

lemma Looked.advance (h : Looked g seen ((name, next) :: rest)) (get : g.get? name = some node)
    (dep? : node.deps[next]? = some dep) (hdep : dep ∈ g.names → seen dep) :
    Looked g seen ((name, next + 1) :: rest) := by
  intro m i hm other hget
  rcases List.mem_cons.1 hm with heq | hm
  · obtain ⟨rfl, rfl⟩ := Prod.mk.inj heq
    obtain rfl : node = other := Option.some.inj (get.symm.trans hget)
    have hlt : next < node.deps.length := (List.getElem?_eq_some_iff.1 dep?).1
    refine ⟨hlt, fun n hn known => ?_⟩
    rw [List.take_add_one, dep?] at hn
    rcases List.mem_append.1 hn with hn | hn
    · exact (h m next (by simp) node get).2 n hn known
    · obtain rfl : n = dep := by simpa using hn
      exact hdep known
  · exact h.tail m i hm other hget

/-- Looking at one more dependency keeps the invariant, if that one has been seen. -/
lemma Invariant.advance (inv : Invariant g w) (top : w.stack = (name, next) :: rest)
    (get : g.get? name = some node) (dep? : node.deps[next]? = some dep)
    (hdep : dep ∈ g.names → w.Seen dep) (dropped : List (String × String)) :
    Invariant g { w with stack := (name, next + 1) :: rest, dropped := dropped } := by
  set w₁ : Walk := { w with stack := (name, next + 1) :: rest, dropped := dropped }
  have hpath : w₁.path = w.path := by
    rw [path_of_top top]; rfl
  have hseen : ∀ n, w.Seen n → w₁.Seen n := by
    intro n hn
    unfold Seen
    rw [hpath]; exact hn
  refine ⟨hpath ▸ inv.simple, hpath ▸ inv.known, hpath ▸ inv.chain, hpath ▸ inv.visiting,
    inv.resolved, hpath ▸ inv.apart, ?_, inv.once, inv.decls⟩
  exact ((top ▸ inv.looked).advance get dep? hdep).mono hseen

lemma Invariant.enter (inv : Invariant g w) (top : w.stack = (name, next) :: rest)
    (get : g.get? name = some node) (dep? : node.deps[next]? = some dep)
    (known : dep ∈ g.names) (new : dep ∉ w.resolved) (off : dep ∉ w.visiting) :
    Invariant g { w with
      stack := (dep, 0) :: (name, next + 1) :: rest
      visiting := dep :: w.visiting } := by
  set w₁ : Walk := { w with
    stack := (dep, 0) :: (name, next + 1) :: rest
    visiting := dep :: w.visiting } with hw₁
  have htop := path_of_top top
  have hpath : w₁.path = dep :: w.path := by
    rw [htop]; rfl
  have hseen : ∀ n, w.Seen n → w₁.Seen n := fun n =>
    (Move.enter top get dep? known new off).seen
  rw [inv.visiting] at off
  refine ⟨?_, ?_, ?_, ?_, inv.resolved, ?_, ?_, inv.once, inv.decls⟩
  · rw [hpath]
    exact List.nodup_cons.2 ⟨off, inv.simple⟩
  · rw [hpath]
    exact List.forall_mem_cons.2 ⟨known, inv.known⟩
  · rw [hpath, htop]
    exact List.isChain_cons_cons.2 ⟨edge_of_dep get dep? known, htop ▸ inv.chain⟩
  · rw [hpath, hw₁, inv.visiting]
  · rw [hpath]
    exact List.forall_mem_cons.2 ⟨new, inv.apart⟩
  · have hdep : w₁.Seen dep := Or.inr (by simp [hpath])
    exact (((top ▸ inv.looked).mono hseen).advance get dep? fun _ => hdep).push

lemma Invariant.finish (inv : Invariant g w) (top : w.stack = (name, next) :: rest)
    (get : g.get? name = some node) (none? : node.deps[next]? = none) :
    Invariant g { w with
      stack := rest
      visiting := w.visiting.erase name
      resolved := name :: w.resolved
      order := w.order ++ [node.decl] } := by
  set w₁ : Walk := { w with
    stack := rest
    visiting := w.visiting.erase name
    resolved := name :: w.resolved
    order := w.order ++ [node.decl] } with hw₁
  have hpath : w.path = name :: w₁.path := path_of_top top
  have hsimple := hpath ▸ inv.simple
  have hseen : ∀ n, w.Seen n → w₁.Seen n := fun n => (Move.finish top get none?).seen
  have hdecl : node ∈ g.nodes ∧ node.decl.name = name := get?_eq_some_iff.1 get
  refine ⟨hsimple.of_cons, ?_, ?_, ?_, ?_, ?_, ?_, ?_, ?_⟩
  · intro n hn
    exact inv.known n (hpath ▸ List.mem_cons_of_mem _ hn)
  · exact (hpath ▸ inv.chain).tail
  · show w.visiting.erase name = w₁.path
    rw [inv.visiting, hpath, List.erase_cons_head]
  · simp [hw₁, inv.resolved, hdecl.2]
  · intro n hn hres
    rcases List.mem_cons.1 hres with rfl | hres
    · exact (List.nodup_cons.1 hsimple).1 hn
    · exact inv.apart n (hpath ▸ List.mem_cons_of_mem _ hn) hres
  · exact (top ▸ inv.looked).tail.mono hseen
  · exact List.nodup_cons.2 ⟨inv.apart name (by simp [hpath]), inv.once⟩
  · intro m hm
    rcases List.mem_append.1 hm with hm | hm
    · exact inv.decls m hm
    · exact ⟨node, hdecl.1, (List.mem_singleton.1 hm).symm⟩

end Moves

/-- **One step** keeps the invariant. -/
theorem Invariant.of_move (inv : Invariant g w) (move : Move g w w') : Invariant g w' := by
  cases move with
  | pass top get dep? old =>
    exact inv.advance top get dep? (fun known => Or.inl (old.resolve_left (not_not.2 known))) _
  | drop top get dep? back =>
    exact inv.advance top get dep? (fun _ => Or.inr (inv.visiting ▸ back)) _
  | enter top get dep? known new off => exact inv.enter top get dep? known new off
  | finish top get none? => exact inv.finish top get none?

/-! ### The work that is left -/

/-- How many dependencies of a name have been looked at. -/
def cursor (w : Walk) (n : String) : Nat := (w.stack.lookup n).getD 0

/-- The steps a node still needs: one for each dependency, and one to finish. -/
def due (w : Walk) (node : DependencyNode) : Nat :=
  if node.name ∈ w.resolved then 0 else node.deps.length + 1 - w.cursor node.name

def work (g : DependencyGraph) (w : Walk) : Nat := (g.nodes.map w.due).sum

lemma cursor_of_not_mem {n : String} (h : n ∉ w.path) : w.cursor n = 0 := by
  have hnone : w.stack.lookup n = none := by
    refine List.lookup_eq_none_iff.2 fun p hp => ?_
    simp only [bne_iff_ne, ne_eq]
    rintro rfl
    exact h (List.mem_map_of_mem hp)
  simp [cursor, hnone]

lemma cursor_cons_self {n : String} {i : Nat} {rest : List (String × Nat)}
    (h : w.stack = (n, i) :: rest) : w.cursor n = i := by
  simp [cursor, h]

lemma cursor_cons_ne {n m : String} {i : Nat} {rest : List (String × Nat)}
    (h : w.stack = (m, i) :: rest) (hne : n ≠ m) : w.cursor n = (rest.lookup n).getD 0 := by
  have hbeq : (n == m) = false := by simpa using hne
  simp [cursor, h, List.lookup_cons, hbeq]

lemma name_ne {node other : DependencyNode} (hn : node ∈ g.nodes) (ho : other ∈ g.nodes)
    (h : other ≠ node) : other.name ≠ node.name :=
  fun e => h (List.inj_on_of_nodup_map g.distinct ho hn e)

/-- The node at the end of the path needs one step less, and the others need what they did. -/
def OneLess (g : DependencyGraph) (w w' : Walk) : Prop :=
  ∃ node ∈ g.nodes, w.due node = w'.due node + 1 ∧
    ∀ other ∈ g.nodes, other ≠ node → w.due other = w'.due other

lemma oneLess_of_advance {name dep : String} {next : Nat} {rest : List (String × Nat)}
    {node : DependencyNode} (inv : Invariant g w) (top : w.stack = (name, next) :: rest)
    (get : g.get? name = some node) (dep? : node.deps[next]? = some dep)
    (hres : w'.resolved = w.resolved) (hself : w'.cursor name = next + 1)
    (hothers : ∀ n, n ≠ name → w'.cursor n = w.cursor n) : OneLess g w w' := by
  obtain ⟨hmem, rfl⟩ := get?_eq_some_iff.1 get
  have hopen : node.name ∉ w.resolved := inv.apart _ (by simp [path, top])
  have hlt : next < node.deps.length := (List.getElem?_eq_some_iff.1 dep?).1
  refine ⟨node, hmem, ?_, fun other ho hne => ?_⟩
  · simp only [due, hres, hopen, if_false, hself, cursor_cons_self top]
    omega
  · simp only [due, hres, hothers _ (name_ne hmem ho hne)]

lemma Move.oneLess (move : Move g w w') (inv : Invariant g w) : OneLess g w w' := by
  cases move with
  | pass top get dep? | drop top get dep? =>
    refine oneLess_of_advance inv top get dep? rfl (cursor_cons_self rfl) fun n hne => ?_
    rw [cursor_cons_ne rfl hne, cursor_cons_ne top hne]
  | @enter name next rest node dep top get dep? known new off =>
    have hoff : dep ∉ w.path := inv.visiting ▸ off
    have hdep : name ≠ dep := by
      rintro rfl
      exact hoff (by simp [path, top])
    refine oneLess_of_advance inv top get dep? rfl ?_ fun n hne => ?_
    · rw [cursor_cons_ne rfl hdep]
      simp
    · rcases eq_or_ne n dep with rfl | hnd
      · rw [cursor_cons_self rfl, cursor_of_not_mem hoff]
      · have hbeq : (n == name) = false := by simpa using hne
        rw [cursor_cons_ne rfl hnd, cursor_cons_ne top hne, List.lookup_cons, hbeq]
  | @finish name next rest node top get none? =>
    obtain ⟨hmem, rfl⟩ := get?_eq_some_iff.1 get
    have hopen : node.name ∉ w.resolved := inv.apart _ (by simp [path, top])
    have hle := (inv.looked node.name next (by simp [top]) node get).1
    have hge := List.getElem?_eq_none_iff.1 none?
    refine ⟨node, hmem, ?_, fun other ho hne => ?_⟩
    · simp only [due, hopen, if_false, cursor_cons_self top, List.mem_cons_self, if_true]
      omega
    · have hname := name_ne hmem ho hne
      simp only [due, List.mem_cons, hname, false_or, cursor_cons_ne top hname]
      rfl

lemma sum_map_of_one_less {α : Type*} {l : List α} {a : α} {f f' : α → ℕ} (hl : l.Nodup)
    (ha : a ∈ l) (h : f a = f' a + 1) (hne : ∀ b ∈ l, b ≠ a → f b = f' b) :
    (l.map f).sum = (l.map f').sum + 1 := by
  induction l with
  | nil => simp at ha
  | cons b l ih =>
    obtain ⟨hb, hl⟩ := List.nodup_cons.1 hl
    simp only [List.map_cons, List.sum_cons]
    rcases List.mem_cons.1 ha with rfl | ha
    · have hrest : l.map f = l.map f' := List.map_congr_left fun c hc =>
        hne c (by simp [hc]) (by rintro rfl; exact hb hc)
      rw [hrest, h]
      omega
    · rw [ih hl ha fun c hc => hne c (by simp [hc]),
        hne b (by simp) (by rintro rfl; exact hb ha)]
      omega

/-- A move is one unit of work. -/
theorem Move.work_eq (move : Move g w w') (inv : Invariant g w) :
    w.work g = w'.work g + 1 := by
  obtain ⟨node, hmem, hself, hothers⟩ := move.oneLess inv
  exact sum_map_of_one_less g.distinct.of_map hmem hself hothers

lemma size_eq_sum (g : DependencyGraph) :
    g.size = (g.nodes.map fun node => node.deps.length + 1).sum := by
  simp [DependencyGraph.size, List.length_flatMap, List.sum_map_add, Nat.add_comm]

lemma work_le_size (g : DependencyGraph) (w : Walk) : w.work g ≤ g.size := by
  have hdue : ∀ node ∈ g.nodes, w.due node ≤ node.deps.length + 1 := by
    intro node _
    unfold due
    split <;> omega
  rw [size_eq_sum]
  exact List.sum_le_sum hdue

/-- A walk with nothing left to do has come to the end of its path. -/
lemma stack_eq_nil (inv : Invariant g w) (h : w.work g = 0) : w.stack = [] := by
  by_contra hne
  have := (inv.move hne).work_eq inv
  omega

end Walk

end ZodGraph
