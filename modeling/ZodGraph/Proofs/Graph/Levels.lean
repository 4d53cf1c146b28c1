import ZodGraph.Graph.Reader
import ZodGraph.Proofs.Json.Collapse

/-!
How deep a node or namespace nests bounds its reader, and the bound plays no part in the result:
a reader of values looks at nothing as deep as the value itself, so the readers of nodes and of
namespaces satisfy the equations one would write without a bound.
-/

namespace ZodGraph

open Json (FromValue Field Fault)

namespace Json.FromValue

variable {α β ρ : Type}

/-- Two readers agree on the values less deep than a number. -/
def AgreeBelow (n : Nat) (p q : FromValue α) : Prop := ∀ j, j.depth < n → p j = q j

/-- Two fields agree on the values less deep than a number. -/
structure FieldsAgree (n : Nat) (f g : Field FromValue ρ) : Prop where
  key : f.key = g.key
  required : f.required = g.required
  put : AgreeBelow n f.put g.put

lemma FieldsAgree.refl (n : Nat) (f : Field FromValue ρ) : FieldsAgree n f f :=
  ⟨rfl, rfl, fun _ _ => rfl⟩

/-! ### Lists and records -/

section Agree

variable {n : Nat} {p q : FromValue α} {fs gs : List (Field FromValue ρ)}

lemma AgreeBelow.mono {k : Nat} (h : AgreeBelow n p q) (hk : k ≤ n) : AgreeBelow k p q :=
  fun j hj => h j (hj.trans_le hk)

lemma AgreeBelow.refine (h : AgreeBelow n p q) (f : α → Except Fault β) :
    AgreeBelow n (Source.refine p f) (Source.refine q f) := by
  intro j hj
  exact congrArg (· >>= f) (h j hj)

lemma AgreeBelow.required (h : AgreeBelow n p q) (key : String) (set : α → ρ → ρ) :
    FieldsAgree n (Source.required key p set) (Source.required key q set) :=
  ⟨rfl, rfl, h.refine _⟩

lemma AgreeBelow.defaulted (h : AgreeBelow n p q) (key : String) (set : α → ρ → ρ) :
    FieldsAgree n (Source.defaulted key p set) (Source.defaulted key q set) :=
  ⟨rfl, rfl, h.refine _⟩

lemma AgreeBelow.nullable (h : AgreeBelow n p q) :
    AgreeBelow n (FromValue.nullable p) (FromValue.nullable q) := by
  intro j hj
  cases j with
  | null => rfl
  | _ => exact congrArg (Except.map some) (h _ hj)

lemma mapM_congr {γ : Type} {f g : γ → Except Fault α} {xs : List γ} (h : ∀ x ∈ xs, f x = g x) :
    xs.mapM f = xs.mapM g := by
  induction xs with
  | nil => rfl
  | cons x xs ih =>
    rw [List.mapM_cons, List.mapM_cons, h x (by simp), ih fun y hy => h y (by simp [hy])]

lemma foldlM_congr {γ σ : Type} {f g : σ → γ → Except Fault σ} {xs : List γ} {s : σ}
    (h : ∀ x ∈ xs, ∀ s, f s x = g s x) : xs.foldlM f s = xs.foldlM g s := by
  induction xs generalizing s with
  | nil => rfl
  | cons x xs ih =>
    rw [List.foldlM_cons, List.foldlM_cons, h x (by simp)]
    exact congrArg _ (funext fun s => ih fun y hy => h y (by simp [hy]))

lemma AgreeBelow.list (h : AgreeBelow n p q) :
    AgreeBelow (n + 1) (FromValue.list p) (FromValue.list q) := by
  intro j hj
  cases j with
  | arr js =>
    refine mapM_congr fun i hi => h i ?_
    have := depth_le_of_mem_items hi
    rw [depth] at hj
    omega
  | _ => rfl

lemma FieldsAgree.entry (h : List.Forall₂ (FieldsAgree n) fs gs) {e : String × Json}
    (he : e.2.depth < n) (state : ρ × List String) :
    FromValue.entry fs state e = FromValue.entry gs state e := by
  have hfind := find?_alike (fun _ _ hfg => hfg.key) h e.1
  unfold FromValue.entry
  rcases hf : fs.find? (·.key = e.1) with _ | f <;> rcases hg : gs.find? (·.key = e.1) with _ | g
    <;> rw [hf, hg] at hfind
  · simp only [hf, hg]
  · cases hfind
  · cases hfind
  · cases hfind with
    | some hfg =>
      simp only [hf, hg]
      rw [hfg.put e.2 he]

lemma FieldsAgree.finish (h : List.Forall₂ (FieldsAgree n) fs gs) (seen : List String) (r : ρ) :
    finish fs seen r = finish gs seen r := by
  have hmissing : firstMissing fs seen = firstMissing gs seen :=
    firstMissing_alike (fun _ _ hfg => ⟨hfg.key, hfg.required⟩) h seen
  rw [Json.finish, Json.finish, hmissing]

lemma FieldsAgree.finishShort (h : List.Forall₂ (FieldsAgree n) fs gs) (title : String)
    (total index : Nat) (r : ρ) :
    finishShort title total index fs r = finishShort title total index gs r := by
  have hidx : fs.findIdx? (·.required) = gs.findIdx? (·.required) := by
    induction h with
    | nil => rfl
    | cons hfg _ ih => simp only [List.findIdx?_cons, hfg.required, ih]
  rw [Json.finishShort, Json.finishShort, hidx]

lemma FieldsAgree.positional (h : List.Forall₂ (FieldsAgree n) fs gs) (title : String)
    (total index : Nat) (r : ρ) {xs : List Json} (hxs : ∀ x ∈ xs, x.depth < n) :
    positional title total fs index r xs = positional title total gs index r xs := by
  induction h generalizing index r xs with
  | nil => rfl
  | @cons f g fs gs hfg hrest ih =>
    rcases xs with _ | ⟨x, xs⟩
    · exact FieldsAgree.finishShort (.cons hfg hrest) title total index r
    · rw [FromValue.positional, FromValue.positional, hfg.put x (hxs x (by simp))]
      exact congrArg _ (funext fun set => ih _ _ fun y hy => hxs y (by simp [hy]))

lemma AgreeBelow.record (h : List.Forall₂ (FieldsAgree n) fs gs) (title : String) (blank : ρ) :
    AgreeBelow (n + 1) (FromValue.record title blank fs) (FromValue.record title blank gs) := by
  intro j hj
  cases j with
  | arr js =>
    have hlen : fs.length = gs.length := h.length_eq
    rw [FromValue.record, FromValue.record, hlen]
    refine FieldsAgree.positional h title _ 0 blank fun i hi => ?_
    have := depth_le_of_mem_items hi
    rw [depth] at hj
    omega
  | obj es =>
    have hfold : es.foldlM (FromValue.entry fs) (blank, []) =
        es.foldlM (FromValue.entry gs) (blank, []) := by
      refine foldlM_congr fun e he state => FieldsAgree.entry h ?_ state
      have := depth_le_of_mem_entries he
      rw [depth] at hj
      omega
    rw [FromValue.record, FromValue.record, hfold]
    exact congrArg _ (funext fun state => FieldsAgree.finish h state.2 state.1)
  | _ => rfl

end Agree

/-! ### Tagged objects -/

section Tagged

variable {key title : String} {body body' : String → Json → Except Fault α}

/-- The entries of a tagged object are its kind, given at most once, and the others in order. -/
lemma foldlM_tagEntry {es rest acc : List (String × Json)} {t t' : Option String} :
    es.foldlM (tagEntry key) (t, acc) = .ok (t', rest) ↔
      rest = (es.filter (·.1 ≠ key)).reverse ++ acc ∧
        (t' = t ∧ es.filter (·.1 = key) = [] ∨
          t = none ∧ ∃ tag, t' = some tag ∧ es.filter (·.1 = key) = [(key, .str tag)]) := by
  induction es generalizing t acc with
  | nil => simp [eq_comm, and_comm]
  | cons e es ih =>
    rw [List.foldlM_cons, bind_eq_ok]
    obtain ⟨k, v⟩ := e
    by_cases hkey : k = key
    · subst hkey
      rcases t with _ | tag
      · cases v with
        | str tag =>
          simp only [tagEntry, if_true, Except.ok.injEq, exists_eq_left', ih]
          simp
        | _ => simp [tagEntry]
      · simp [tagEntry]
    · simp only [tagEntry, if_neg hkey, Except.ok.injEq, exists_eq_left', ih]
      simp [hkey]

lemma tagged_obj_eq_ok {es : List (String × Json)} {a : α} :
    tagged key title body (.obj es) = .ok a ↔
      ∃ tag, es.filter (·.1 = key) = [(key, .str tag)] ∧
        body tag (.obj (es.filter (·.1 ≠ key))) = .ok a := by
  rw [tagged, bind_eq_ok]
  constructor
  · rintro ⟨⟨t, rest⟩, hfold, hbody⟩
    obtain ⟨rfl, ⟨rfl, -⟩ | ⟨-, tag, rfl, htag⟩⟩ := foldlM_tagEntry.1 hfold
    · simp at hbody
    · exact ⟨tag, htag, by simpa using hbody⟩
  · rintro ⟨tag, htag, hbody⟩
    refine ⟨(some tag, (es.filter (·.1 ≠ key)).reverse), foldlM_tagEntry.2 ⟨by simp, ?_⟩, ?_⟩
    · exact .inr ⟨rfl, tag, rfl, htag⟩
    · simpa using hbody

/-- An entry away from the kind is left to what is read according to the kind. -/
lemma tagged_middle_eq_ok {es es' : List (String × Json)} {k : String} {v : Json} {a : α}
    (hk : k ≠ key) :
    tagged key title body (.obj (es ++ (k, v) :: es')) = .ok a ↔
      ∃ tag, (es ++ es').filter (·.1 = key) = [(key, .str tag)] ∧
        body tag (.obj (es.filter (·.1 ≠ key) ++ (k, v) :: es'.filter (·.1 ≠ key))) = .ok a := by
  rw [tagged_obj_eq_ok]
  simp [hk]

/-- What is read according to the kind is no deeper than the whole. -/
lemma tagged_congr {j : Json} (h : ∀ tag b, b.depth ≤ j.depth → body tag b = body' tag b) :
    tagged key title body j = tagged key title body' j := by
  cases j with
  | arr js =>
    rcases js with _ | ⟨j, js⟩
    · rfl
    · cases j with
      | str tag =>
        refine h tag (.arr js) ?_
        simp only [depth, depthItems]
        omega
      | _ => rfl
  | obj es =>
    rw [tagged, tagged]
    rcases hfold : es.foldlM (tagEntry key) (none, []) with e | ⟨t, rest⟩
    · rfl
    · rcases t with _ | tag
      · rfl
      · obtain ⟨rfl, -⟩ := foldlM_tagEntry.1 hfold
        refine h tag _ ?_
        simp only [List.append_nil, List.reverse_reverse, depth]
        refine Nat.succ_le_succ (depthEntries_le fun e he => ?_)
        exact depth_le_of_mem_entries (List.mem_filter.1 he).1
  | _ => rfl

end Tagged

/-! ### Levels -/

/-- A reader that is its own next level needs as many levels as the value has. -/
lemma levels_eq {level : Nat → FromValue α} {next : FromValue α → FromValue α}
    (hnext : ∀ n, level (n + 1) = next (level n))
    (hflat : ∀ p j, j.depth = 0 → level 0 j = next p j)
    (hcongr : ∀ p q j, AgreeBelow j.depth p q → next p j = next q j) (j : Json) :
    level j.depth j = next (fun i => level i.depth i) j := by
  have henough (n : Nat) : ∀ m j, j.depth ≤ n → j.depth ≤ m → level n j = level m j := by
    induction n with
    | zero =>
      intro m j hn _
      rcases m with _ | m
      · rfl
      · rw [hnext, hflat (level m) j (by omega)]
    | succ n ih =>
      intro m j hn hm
      rcases m with _ | m
      · rw [hnext, hflat (level n) j (by omega)]
      · rw [hnext, hnext]
        exact hcongr _ _ j fun i hi => ih m i (by omega) (by omega)
  rw [henough j.depth (j.depth + 1) j le_rfl (by omega), hnext]
  exact hcongr _ _ j fun i hi => henough _ _ i hi.le le_rfl

end Json.FromValue

open Json.FromValue

section Readers

variable {n : Nat} {p q : FromValue TypeNode}

lemma TypeNode.agree_slot (h : AgreeBelow n p q) :
    AgreeBelow n (TypeNode.slot p) (TypeNode.slot q) := by
  intro j hj
  have hnode := h j.collapse (j.depth_collapse_le.trans_lt hj)
  change Except.ok ((p j.collapse).toOption.getD .unrecognized) =
    Except.ok ((q j.collapse).toOption.getD .unrecognized)
  rw [hnode]

lemma PropertyOf.agree_reader (h : AgreeBelow n p q) :
    AgreeBelow (n + 1) (PropertyOf.reader p) (PropertyOf.reader q) :=
  AgreeBelow.record (.cons (.refl ..) (.cons ((TypeNode.agree_slot h).defaulted ..)
    (.cons (.refl ..) .nil))) _ _

lemma IndexerOf.agree_reader (h : AgreeBelow n p q) :
    AgreeBelow (n + 1) (IndexerOf.reader p) (IndexerOf.reader q) :=
  AgreeBelow.record (.cons (.refl ..) (.cons ((TypeNode.agree_slot h).required ..) .nil)) _ _

lemma TypeNode.ofKind_congr {kind : String} {body : Json} (h : AgreeBelow body.depth p q) :
    ofKind p kind body = ofKind q kind body := by
  have hbody : body.depth < body.depth + 1 := Nat.lt_succ_self _
  have hslot := agree_slot h
  unfold ofKind
  split
  · rfl
  · have hindexer := ((IndexerOf.agree_reader h).mono (Nat.le_succ _)).nullable
    exact congrArg (Bind.bind · _)
      (AgreeBelow.record (.cons (.refl ..) (.cons (hindexer.defaulted ..) .nil)) _ _ body hbody)
  · rfl
  · have hvariants := hslot.list.mono (Nat.le_succ _)
    exact congrArg (Bind.bind · _)
      (AgreeBelow.record (.cons (hvariants.defaulted ..) .nil) _ _ body hbody)
  · exact congrArg (Bind.bind · _)
      (AgreeBelow.record (.cons (hslot.required ..) .nil) _ _ body hbody)
  · exact congrArg (Bind.bind · _)
      (AgreeBelow.record (.cons (.refl ..) (.cons (hslot.required ..) .nil)) _ _ body hbody)
  · have hproperties := (PropertyOf.agree_reader h).list.mono (Nat.le_add_right _ 2)
    exact congrArg (Bind.bind · _)
      (AgreeBelow.record (.cons (hproperties.defaulted ..) .nil) _ _ body hbody)
  · rfl
  · rfl
  · rfl

/-- A node is a tagged object whose nested nodes are read in the same way. -/
theorem TypeNode.ofJson_eq (j : Json) :
    TypeNode.ofJson j = tagged "kind" "TypeNode" (ofKind TypeNode.ofJson) j := by
  refine @levels_eq _ ofJsonAt (fun p => tagged "kind" "TypeNode" (ofKind p)) (fun _ => rfl)
    (fun p j hj => ?_) (fun p q j h => ?_) j
  · cases j with
    | arr => simp [Json.depth] at hj
    | obj => simp [Json.depth] at hj
    | _ => rfl
  · exact tagged_congr fun tag b hb => TypeNode.ofKind_congr (h.mono hb)

/-- A namespace is a record whose children are read in the same way. -/
theorem Namespace.ofJson_eq (j : Json) :
    Namespace.ofJson j = Namespace.readerWith (m := FromValue) (entryOf Namespace.ofJson) j := by
  refine @levels_eq _ ofJsonAt (fun p => Namespace.readerWith (entryOf p)) (fun _ => rfl)
    (fun p j hj => ?_) (fun p q j h => ?_) j
  · cases j with
    | arr => simp [Json.depth] at hj
    | obj => simp [Json.depth] at hj
    | _ => rfl
  · have hentry : AgreeBelow j.depth (fun i => .ok (entryOf p i)) fun i => .ok (entryOf q i) := by
      intro i hi
      simp only [entryOf, h i hi]
    have hentries := hentry.list.mono (Nat.le_succ _)
    exact AgreeBelow.record (.cons (.refl ..) (.cons (hentries.defaulted ..)
      (.cons (.refl ..) (.cons (.refl ..) .nil)))) _ _ j (Nat.lt_succ_self _)

end Readers

end ZodGraph
