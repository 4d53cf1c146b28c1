import ZodGraph.Proofs.Graph.Levels
import ZodGraph.Proofs.Graph.Place
import ZodGraph.Proofs.Json.Replace

/-!
Lenient reading confines damage. A slot takes any value and a list of children takes any items,
so replacing what stands in one of them by any other value gives a document that is read again,
and the graph differs in that place alone.
-/

namespace ZodGraph

open Json (Source LawfulSource FromValue FromText Focused Edit Has Part)
open Json.Source Json.LawfulSource

variable {m : Type → Type} [Source m] [LawfulSource m]

/-! ### Readers of one value -/

section Proper

variable {node : FromValue TypeNode}

@[simp] lemma TypeNode.proper_slot : Proper (TypeNode.slot node : m TypeNode) :=
  Json.proper_refine_any

@[simp] lemma PropertyOf.proper_reader : Proper (PropertyOf.reader node : m Property) :=
  proper_record (by simp)

@[simp] lemma IndexerOf.proper_reader : Proper (IndexerOf.reader node : m Indexer) :=
  proper_record (by simp [IndexerOf.fields, KeyKind.reader])

end Proper

/-! ### Slots -/

section Slots

variable {node : FromValue TypeNode} {γ : Type} {shown : γ → Prop} {path : List Part}
  {look : TypeNode → Option γ} {put : Json → TypeNode → TypeNode}

lemma PropertyOf.focused_type (hblank : ∀ c, look .unrecognized = some c → ¬ shown c)
    (h : Focused shown (TypeNode.slot node : m TypeNode) path look put) :
    Focused shown (PropertyOf.reader node : m Property) (.field "type" 1 :: path)
      (fun p => look p.type) fun v p => { p with type := put v p.type } :=
  Focused.record PropertyOf.type (fun t (p : Property) => { p with type := t }) (by simp)
    ⟨⟨false, rfl⟩, by simp, by simp, fun _ _ => rfl, fun _ _ _ => rfl⟩ rfl hblank h

/-- Key and value types confine changes in the value, whatever the record is called. -/
lemma IndexerOf.focused_fields (title : String)
    (hblank : ∀ c, look .unrecognized = some c → ¬ shown c)
    (h : Focused shown (TypeNode.slot node : m TypeNode) path look put) :
    Focused shown (record title ⟨.other, .unrecognized⟩ (IndexerOf.fields node) : m Indexer)
      (.field "value" 1 :: path) (fun ix => look ix.value)
      fun v ix => { ix with value := put v ix.value } :=
  Focused.record IndexerOf.value (fun t (ix : Indexer) => { ix with value := t })
    (by simp [fields, KeyKind.reader])
    ⟨⟨true, rfl⟩, by simp [fields], by simp [fields], fun _ _ => rfl, fun _ _ _ => rfl⟩
    rfl hblank h

end Slots

/-! ### Kinds of nodes -/

namespace TypeNode

section Kinds

variable (node : FromValue TypeNode)

/-- What the kinds with slots are read from. -/
inductive ReadAs (body : Json) : String → TypeNode → Prop
  | model {name : String} {indexer : Option Indexer} :
    modelFields node body = .ok (name, indexer) → ReadAs body "model" (model name indexer)
  | union {ts : List TypeNode} :
    unionFields node body = .ok ts → ReadAs body "union" (union ts)
  | array {t : TypeNode} : arrayFields node body = .ok t → ReadAs body "array" (array t)
  | map {ix : Indexer} : mapFields node body = .ok ix → ReadAs body "map" (map ix.key ix.value)
  | object {ps : List Property} :
    objectFields node body = .ok ps → ReadAs body "object" (object ps)
  | leaf {kind : String} {t : TypeNode} : (∀ s, t.child? s = none) → ReadAs body kind t

variable {node}

lemma readAs_of_ofKind {kind : String} {body : Json} {t : TypeNode}
    (h : ofKind node kind body = .ok t) : ReadAs node body kind t := by
  unfold ofKind at h
  split at h
  · rcases hscalar : ScalarRef.ofJson body with e | ref
    · simp [hscalar, Except.map] at h
    · obtain rfl : scalar ref = t := by simpa [hscalar, Except.map] using h
      exact .leaf fun s => by cases s <;> rfl
  · obtain ⟨⟨name, indexer⟩, hfields, hend⟩ := Json.bind_eq_ok.1 h
    obtain rfl : model name indexer = t := Except.ok.inj hend
    exact .model hfields
  · obtain ⟨name, _, hend⟩ := Json.bind_eq_ok.1 h
    obtain rfl : enum name = t := Except.ok.inj hend
    exact .leaf fun s => by cases s <;> rfl
  · obtain ⟨ts, hfields, hend⟩ := Json.bind_eq_ok.1 h
    obtain rfl : union ts = t := Except.ok.inj hend
    exact .union hfields
  · obtain ⟨u, hfields, hend⟩ := Json.bind_eq_ok.1 h
    obtain rfl : array u = t := Except.ok.inj hend
    exact .array hfields
  · obtain ⟨ix, hfields, hend⟩ := Json.bind_eq_ok.1 h
    obtain rfl : map ix.key ix.value = t := Except.ok.inj hend
    exact .map hfields
  · obtain ⟨ps, hfields, hend⟩ := Json.bind_eq_ok.1 h
    obtain rfl : object ps = t := Except.ok.inj hend
    exact .object hfields
  · obtain ⟨value, _, hend⟩ := Json.bind_eq_ok.1 h
    obtain rfl : literal value = t := Except.ok.inj hend
    exact .leaf fun s => by cases s <;> rfl
  · obtain ⟨name, _, hend⟩ := Json.bind_eq_ok.1 h
    obtain rfl : intrinsic name = t := Except.ok.inj hend
    exact .leaf fun s => by cases s <;> rfl
  · split at h
    · simp at h
    · obtain rfl : unrecognized = t := Except.ok.inj h
      exact .leaf fun s => by cases s <;> rfl

variable {γ : Type} {shown : γ → Prop} {path : List Part} {look : TypeNode → Option γ}
  {put : Json → TypeNode → TypeNode}

lemma focused_modelFields (hblank : ∀ c, look .unrecognized = some c → ¬ shown c)
    (h : Focused shown (slot node : FromValue TypeNode) path look put) :
    Focused shown (modelFields node) (.field "indexer" 1 :: .field "value" 1 :: path)
      (fun r => r.2.bind fun ix => look ix.value)
      fun v r => (r.1, r.2.map fun ix => { ix with value := put v ix.value }) :=
  Focused.record Prod.snd (fun v r => (r.1, v)) (by simp)
    ⟨⟨false, rfl⟩, by simp, by simp, fun _ _ => rfl, fun _ _ _ => rfl⟩ rfl (by simp)
    ((IndexerOf.focused_fields _ hblank h).nullable IndexerOf.proper_reader)

lemma focused_unionFields (h : Focused shown (slot node : FromValue TypeNode) path look put)
    (i : Nat) :
    Focused shown (unionFields node) (.field "variants" 0 :: .item i :: path)
      (fun ts => ts[i]?.bind look) fun v ts => ts.modify i (put v) :=
  Focused.record (fun ts => ts) (fun ts _ => ts) (by simp)
    ⟨⟨false, rfl⟩, by simp, by simp, fun _ _ => rfl, fun _ _ _ => rfl⟩ rfl (by simp)
    (h.list proper_slot i)

lemma focused_arrayFields (hblank : ∀ c, look .unrecognized = some c → ¬ shown c)
    (h : Focused shown (slot node : FromValue TypeNode) path look put) :
    Focused shown (arrayFields node) (.field "element" 0 :: path) look put :=
  Focused.record (fun t => t) (fun t _ => t) (by simp)
    ⟨⟨true, rfl⟩, by simp, by simp, fun _ _ => rfl, fun _ _ _ => rfl⟩ rfl hblank h

lemma focused_mapFields (hblank : ∀ c, look .unrecognized = some c → ¬ shown c)
    (h : Focused shown (slot node : FromValue TypeNode) path look put) :
    Focused shown (mapFields node) (.field "value" 1 :: path) (fun ix => look ix.value)
      fun v ix => { ix with value := put v ix.value } :=
  IndexerOf.focused_fields _ hblank h

lemma focused_objectFields (hblank : ∀ c, look .unrecognized = some c → ¬ shown c)
    (h : Focused shown (slot node : FromValue TypeNode) path look put) (i : Nat) :
    Focused shown (objectFields node) (.field "properties" 0 :: .item i :: .field "type" 1 :: path)
      (fun ps => ps[i]?.bind fun p => look p.type)
      fun v ps => ps.modify i fun p => { p with type := put v p.type } :=
  Focused.record (fun ps => ps) (fun ps _ => ps) (by simp)
    ⟨⟨false, rfl⟩, by simp, by simp, fun _ _ => rfl, fun _ _ _ => rfl⟩ rfl (by simp)
    ((PropertyOf.focused_type hblank h).list PropertyOf.proper_reader i)

end Kinds

end TypeNode

/-! ### Nodes below a slot -/

section Tagged

variable {α β γ : Type} {key title k : String} {body : String → Json → Except Json.Fault α}
  {path : List Part} {i : Nat} {shown : γ → Prop}

/-- A change of a tagged object away from its kind is a change of what is left. -/
lemma Json.FromValue.tagged_edit {v : Json} {x x' : Raw FromValue} {a : α} (hk : k ≠ key)
    (hedit : Edit v (.field k (i + 1) :: path) x x')
    (h : Json.FromValue.tagged key title body x = .ok a) :
    ∃ tag b b', body tag b = .ok a ∧ Edit (m := FromValue) v (.field k i :: path) b b' ∧
      ∀ a', body tag b' = .ok a' → Json.FromValue.tagged key title body x' = .ok a' := by
  cases hedit with
  | @item _ _ _ _ y y' xs ys hx hx' hi hedit =>
    obtain rfl : x = .arr (xs ++ y :: ys) := hx
    obtain rfl : x' = .arr (xs ++ y' :: ys) := hx'
    rcases xs with _ | ⟨first, xs⟩
    · simp [Part.index] at hi
    · cases first with
      | str tag =>
        refine ⟨tag, .arr (xs ++ y :: ys), .arr (xs ++ y' :: ys), h, ?_, fun a' ha' => ha'⟩
        exact .item rfl rfl (by simpa [Part.index] using hi) hedit
      | _ => simp [tagged] at h
  | @entry _ _ _ y y' es es' _ _ hx hx' hlast hedit =>
    obtain rfl : x = .obj (es ++ (k, y) :: es') := hx
    obtain rfl : x' = .obj (es ++ (k, y') :: es') := hx'
    obtain ⟨tag, htag, hbody⟩ := (tagged_middle_eq_ok hk).1 h
    refine ⟨tag, _, _, hbody, .entry rfl rfl (fun hmem => hlast ?_) hedit, fun a' ha' => ?_⟩
    · obtain ⟨e, he, rfl⟩ := List.mem_map.1 hmem
      exact List.mem_map_of_mem (List.mem_filter.1 he).1
    · exact (tagged_middle_eq_ok hk).2 ⟨tag, htag, ha'⟩

/-- What is left of a tagged object has the parts of the object away from its kind. -/
lemma Json.FromValue.tagged_has {x : Json} {a : α} (hk : k ≠ key)
    (h : Json.FromValue.tagged key title body x = .ok a) :
    ∃ tag b, body tag b = .ok a ∧ (Has (m := FromValue) (.field k i :: path) b →
      Has (m := FromValue) (.field k (i + 1) :: path) x) := by
  cases x with
  | arr js =>
    rcases js with _ | ⟨first, js⟩
    · simp [tagged] at h
    · cases first with
      | str tag =>
        refine ⟨tag, .arr js, h, fun hhas => ?_⟩
        obtain ⟨xs, y, ys, rfl, hi, hy⟩ := hhas.of_arr rfl
        exact @Has.item FromValue _ _ _ _ _ y (.str tag :: xs) ys rfl (congrArg (· + 1) hi) hy
      | _ => simp [tagged] at h
  | obj es =>
    obtain ⟨tag, -, hbody⟩ := tagged_obj_eq_ok.1 h
    refine ⟨tag, _, hbody, fun hhas => ?_⟩
    obtain ⟨pre, y, post, hes, hlast, hy⟩ := hhas.of_obj rfl
    obtain ⟨es₁, es', rfl, rfl, hes'⟩ := List.filter_eq_append_iff.1 hes
    obtain ⟨es₂, es₃, rfl, -, -, rfl⟩ := List.filter_eq_cons_iff.1 hes'
    rw [← List.append_assoc]
    refine .entry rfl (fun hmem => hlast ?_) hy
    obtain ⟨e, he, rfl⟩ := List.mem_map.1 hmem
    exact List.mem_map_of_mem (List.mem_filter.2 ⟨he, by simpa using hk⟩)
  | _ => simp [tagged] at h

lemma Json.Focused.tagged {look : α → Option γ} {put : Json → α → α} (hk : k ≠ key)
    (h : ∀ tag, Focused (m := FromValue) shown (body tag) (.field k i :: path) look put) :
    Focused (m := FromValue) shown (FromValue.tagged key title body) (.field k (i + 1) :: path)
      look put where
  edit hedit hread hlook := by
    obtain ⟨tag, b, b', hbody, hedit, hnew⟩ := FromValue.tagged_edit hk hedit hread
    exact hnew _ ((h tag).edit hedit hbody hlook)
  has hread hlook hshown := by
    obtain ⟨tag, b, hbody, hhas⟩ := FromValue.tagged_has hk hread
    exact hhas ((h tag).has hbody hlook hshown)

/-- A reader that wraps what another reads confines changes as the other does. -/
lemma Json.Focused.wrap {p : FromValue β} {q : FromValue α} (g : α → β) {look : α → Option γ}
    {put : Json → α → α} {look' : β → Option γ} {put' : Json → β → β}
    (hp : ∀ x b c, p x = .ok b → look' b = some c →
      ∃ a, b = g a ∧ q x = .ok a ∧ ∀ x' a', q x' = .ok a' → p x' = .ok (g a'))
    (hlook : ∀ a, look' (g a) = look a) (hput : ∀ v a, put' v (g a) = g (put v a))
    (h : Focused shown q path look put) : Focused shown p path look' put' where
  edit {v x x' b c} hedit hread hb := by
    obtain ⟨a, rfl, hq, hwrap⟩ := hp x b c hread hb
    change p x' = .ok (put' v (g a))
    rw [hput]
    exact hwrap x' _ (h.edit hedit hq (by rwa [← hlook]))
  has {x b c} hread hb hshown := by
    obtain ⟨a, rfl, hq, -⟩ := hp x b c hread hb
    exact h.has hq (by rwa [← hlook]) hshown

end Tagged

namespace TypeNode

/-- A node confines changes in a slot as the reader of the slot does. -/
lemma focused_child {γ : Type} {shown : γ → Prop} {path : List Part} {look : TypeNode → Option γ}
    {put : Json → TypeNode → TypeNode} (hblank : ∀ c, look .unrecognized = some c → ¬ shown c)
    (h : Focused shown (slot ofJson : FromValue TypeNode) path look put) (s : Slot) :
    Focused (m := FromValue) shown ofJson (s.path ++ path) (fun t => (t.child? s).bind look)
      fun v t => t.mapChild (put v) s := by
  rw [show (ofJson : FromValue TypeNode) = FromValue.tagged "kind" "TypeNode" (ofKind ofJson) from
    funext ofJson_eq]
  cases s with
  | property i =>
    refine Focused.tagged (by decide) fun tag => Focused.wrap object (fun x t c hx hc => ?_)
      (fun _ => by simp [child?, Option.bind_map]) (fun _ _ => rfl)
      (focused_objectFields hblank h i)
    cases readAs_of_ofKind hx with
    | object hps => exact ⟨_, rfl, hps, fun x' ps hps' => congrArg (Bind.bind · _) hps'⟩
    | leaf hnone => simp [hnone] at hc
    | _ => simp [child?] at hc
  | indexer =>
    refine Focused.tagged (by decide) fun tag => Focused.wrap (fun r => model r.1 r.2)
      (fun x t c hx hc => ?_) (fun _ => by simp [child?, Option.bind_map]) (fun _ _ => rfl)
      (focused_modelFields hblank h)
    cases readAs_of_ofKind hx with
    | model hr => exact ⟨_, rfl, hr, fun x' r hr' => congrArg (Bind.bind · _) hr'⟩
    | leaf hnone => simp [hnone] at hc
    | _ => simp [child?] at hc
  | variant i =>
    refine Focused.tagged (by decide) fun tag => Focused.wrap union (fun x t c hx hc => ?_)
      (fun _ => rfl) (fun _ _ => rfl) (focused_unionFields h i)
    cases readAs_of_ofKind hx with
    | union hts => exact ⟨_, rfl, hts, fun x' ts hts' => congrArg (Bind.bind · _) hts'⟩
    | leaf hnone => simp [hnone] at hc
    | _ => simp [child?] at hc
  | element =>
    refine Focused.tagged (by decide) fun tag => Focused.wrap array (fun x t c hx hc => ?_)
      (fun _ => rfl) (fun _ _ => rfl) (focused_arrayFields hblank h)
    cases readAs_of_ofKind hx with
    | array ht => exact ⟨_, rfl, ht, fun x' t' ht' => congrArg (Bind.bind · _) ht'⟩
    | leaf hnone => simp [hnone] at hc
    | _ => simp [child?] at hc
  | value =>
    refine Focused.tagged (by decide) fun tag => Focused.wrap
      (fun ix : Indexer => map ix.key ix.value) (fun x t c hx hc => ?_) (fun _ => rfl)
      (fun _ _ => rfl) (focused_mapFields hblank h)
    cases readAs_of_ofKind hx with
    | map hix => exact ⟨_, rfl, hix, fun x' ix hix' => congrArg (Bind.bind · _) hix'⟩
    | leaf hnone => simp [hnone] at hc
    | _ => simp [child?] at hc

lemma denoted_collapse (j : Json) : denoted j.collapse = denoted j := by
  rw [denoted, denoted, Json.collapse_collapse]

lemma denoted_of_ok {j : Json} {t : TypeNode} (h : ofJson j.collapse = .ok t) : denoted j = t := by
  rw [denoted, h]
  rfl

/-- What denotes a node with a slot is a node. -/
lemma ofJson_of_child {j : Json} {s : Slot} {u : TypeNode} (h : (denoted j).child? s = some u) :
    ofJson j.collapse = .ok (denoted j) := by
  rw [denoted] at h ⊢
  rcases hnode : ofJson j.collapse with e | t
  · rw [hnode] at h
    cases s <;> simp [Except.toOption, child?] at h
  · rfl

/-- A slot confines changes in the nodes below it. -/
lemma focused_slot (slots : List Slot) :
    Focused (· ≠ unrecognized) (slot ofJson : FromValue TypeNode) (slots.flatMap Slot.path)
      (·.at? slots) fun v t => t.putAt (denoted v) slots := by
  induction slots with
  | nil =>
    refine ⟨fun hedit _ _ => ?_, fun _ _ _ => .here⟩
    cases hedit with
    | here hv =>
      obtain rfl := Except.ok.inj hv
      rfl
  | cons s slots ih =>
    have hchild := focused_child (fun c hc => not_not.2 (at?_unrecognized hc)) ih s
    rw [List.flatMap_cons]
    refine ⟨fun {v x x' t c} hedit hread hlook => ?_, fun {x t c} hread hlook hshown => ?_⟩
    · obtain rfl : denoted x = t := Except.ok.inj hread
      obtain ⟨u, hu, -⟩ := Option.bind_eq_some_iff.1 hlook
      have hnode : ofJson (Json.collapse x') = .ok _ :=
        hchild.edit hedit.collapse (ofJson_of_child hu) hlook
      simp only [denoted_collapse] at hnode
      exact congrArg Except.ok (denoted_of_ok hnode)
    · obtain rfl : denoted x = t := Except.ok.inj hread
      obtain ⟨u, hu, -⟩ := Option.bind_eq_some_iff.1 hlook
      exact (hchild.has (ofJson_of_child hu) hlook hshown).of_collapse rfl

end TypeNode

/-! ### Models -/

@[simp] lemma Property.proper_reader : Proper (Property.reader : m Property) :=
  PropertyOf.proper_reader

@[simp] lemma proper_indexer : Proper (IndexerOf.reader TypeNode.ofJson : m Indexer) :=
  IndexerOf.proper_reader

namespace Model

@[simp] lemma proper_reader : Proper (Model.reader : m Model) :=
  proper_record (by simp [Origin.reader])

/-- A model confines changes in a slot as the reader of the slot does. -/
lemma focused_child {γ : Type} {shown : γ → Prop} {path : List Part} {look : TypeNode → Option γ}
    {put : Json → TypeNode → TypeNode} (hblank : ∀ c, look .unrecognized = some c → ¬ shown c)
    (h : Focused shown (TypeNode.slot TypeNode.ofJson : m TypeNode) path look put) (s : Slot) :
    Focused shown (Model.reader : m Model) (s.path ++ path) (fun d => (d.child? s).bind look)
      fun v d => d.mapChild (put v) s := by
  cases s with
  | property i =>
    have hprops := (PropertyOf.focused_type hblank h).list PropertyOf.proper_reader i
    simp only [child?, Option.bind_map, Function.comp_def]
    exact Focused.record Model.properties (fun ps (d : Model) => { d with properties := ps })
      (by simp [Origin.reader]) ⟨⟨false, rfl⟩, by simp, by simp, fun _ _ => rfl, fun _ _ _ => rfl⟩
      rfl (by simp) hprops
  | indexer =>
    have hindexer := (IndexerOf.focused_fields _ hblank h).nullable IndexerOf.proper_reader
    simp only [child?, Option.bind_map, Function.comp_def]
    exact Focused.record Model.indexer (fun ix (d : Model) => { d with indexer := ix })
      (by simp [Origin.reader]) ⟨⟨false, rfl⟩, by simp, by simp, fun _ _ => rfl, fun _ _ _ => rfl⟩
      rfl (by simp) hindexer
  | _ =>
    refine ⟨fun _ _ hlook => ?_, fun _ hlook => ?_⟩
    · simp [child?] at hlook
    · simp [child?] at hlook

end Model

/-! ### Namespaces -/

@[simp] lemma Member.proper_reader : Proper (Member.reader : m Member) := proper_record (by simp)

@[simp] lemma Enumeration.proper_reader : Proper (Enumeration.reader : m Enumeration) :=
  proper_record (by simp [Origin.reader])

namespace Namespace

lemma proper_reader : Proper (Namespace.reader : m Namespace) := proper_record (by simp)

section

variable {γ : Type} {shown : γ → Prop} {path : List Part}

lemma focused_models {look : Model → Option γ} {put : Json → Model → Model}
    (h : Focused shown (Model.reader : m Model) path look put) (i : Nat) :
    Focused shown (Namespace.reader : m Namespace) (.field "models" 2 :: .item i :: path)
      (fun ns => ns.models[i]?.bind look) fun v ns =>
        { ns with models := ns.models.modify i (put v) } :=
  Focused.record Namespace.models (fun ds (ns : Namespace) => { ns with models := ds }) (by simp)
    ⟨⟨false, rfl⟩, by simp, by simp, fun _ _ => rfl, fun _ _ _ => rfl⟩ rfl (by simp)
    (h.list Model.proper_reader i)

lemma focused_entries {look : Entry → Option γ} {put : Json → Entry → Entry}
    (h : Focused (m := FromValue) shown (fun j => .ok (entryOf ofJson j)) path look put)
    (i : Nat) :
    Focused shown (Namespace.reader : m Namespace) (.field "namespaces" 1 :: .item i :: path)
      (fun ns => ns.entries[i]?.bind look) fun v ns =>
        { ns with entries := ns.entries.modify i (put v) } :=
  Focused.record Namespace.entries (fun es (ns : Namespace) => { ns with entries := es }) (by simp)
    ⟨⟨false, rfl⟩, by simp, by simp, fun _ _ => rfl, fun _ _ _ => rfl⟩ rfl (by simp)
    (h.refine_any.list Json.proper_refine_any i)

lemma entryOf_eq_child {j : Json} {c : Namespace} :
    entryOf ofJson j = .child c ↔ ofJson j = .ok c := by
  unfold entryOf
  split <;> simp_all

/-- A child that is well formed stays so and confines changes as its reader does. -/
lemma focused_entryOf {look : Namespace → Option γ} {put : Json → Namespace → Namespace}
    (h : Focused shown (Namespace.reader : FromValue Namespace) path look put) :
    Focused (m := FromValue) shown (fun j => .ok (entryOf ofJson j)) path
      (fun e => e.child?.bind look) fun v e => e.mapChild (put v) := by
  refine Focused.wrap EntryOf.child (fun x e c hx hc => ?_) (fun _ => rfl) (fun _ _ => rfl) h
  obtain ⟨ns, hns, -⟩ := Option.bind_eq_some_iff.1 hc
  obtain rfl := EntryOf.child?_eq_some.1 hns
  refine ⟨ns, rfl, (ofJson_eq x).symm.trans (entryOf_eq_child.1 (Except.ok.inj hx)), ?_⟩
  exact fun x' ns' hns' => congrArg Except.ok (entryOf_eq_child.2 ((ofJson_eq x').trans hns'))

/-- A namespace confines changes in the namespaces below it as their reader does. -/
lemma focused_space {look : Namespace → Option γ} {put : Json → Namespace → Namespace}
    (h : ∀ (m : Type → Type) [Source m] [LawfulSource m],
      Focused shown (Namespace.reader : m Namespace) path look put)
    (way : List Nat) (m : Type → Type) [Source m] [LawfulSource m] :
    Focused shown (Namespace.reader : m Namespace) (spacePath way ++ path)
      (fun ns => (ns.space? way).bind look) fun v ns => ns.mapSpace (put v) way := by
  induction way generalizing m with
  | nil => exact h m
  | cons i way ih =>
    have hentries := focused_entries (m := m) (focused_entryOf (ih FromValue)) i
    simp only [space?, Option.bind_assoc]
    exact hentries

lemma focused_node (p : Place) :
    Focused (· ≠ .unrecognized) (Namespace.reader : m Namespace) p.path (·.node? p)
      fun v ns => ns.putNode (.denoted v) p := by
  refine focused_space (fun m _ _ => focused_models (Model.focused_child ?_
    (TypeNode.focused_slot p.below).refine_any p.slot) p.model) p.way m
  exact fun c hc => not_not.2 (TypeNode.at?_unrecognized hc)

lemma focused_entry (way : List Nat) (i : Nat) :
    Focused (fun _ => True) (Namespace.reader : m Namespace) (entryPath way i) (·.entryAt? way i)
      fun v ns => ns.putEntry (entryOf ofJson v) way i := by
  have hhere : Focused (m := FromValue) (fun _ => True) (fun j => .ok (entryOf ofJson j)) [] some
      fun v _ => entryOf ofJson v := by
    refine ⟨fun hedit _ _ => ?_, fun _ _ _ => .here⟩
    cases hedit with
    | here hv =>
      obtain rfl := Except.ok.inj hv
      rfl
  have hlook : (fun ns : Namespace => ns.entryAt? way i) = fun ns =>
      (ns.space? way).bind fun s => s.entries[i]?.bind some := by
    funext ns
    simp [entryAt?]
  have hput : (fun (v : Json) (ns : Namespace) => ns.putEntry (entryOf ofJson v) way i) =
      fun v ns => ns.mapSpace (fun s => { s with
        entries := s.entries.modify i fun _ => entryOf ofJson v }) way := by
    funext v ns
    simp only [putEntry, List.set_eq_modify]
  rw [hlook, hput]
  exact focused_space (fun m _ _ => focused_entries hhere i) way m

end

/-- **Damage stays in its place**: where a node was read, any other value leaves the document
accepted and changes that node alone, into what the value denotes. Where a child of a namespace was
read, any other value changes that child alone. A node that was recognized, and every child, has
its place in the document. -/
theorem parse_replaceAt {text : String} {ns : Namespace} {new : List Char} {v : Json}
    {room : Nat} (hread : parse text = .ok ns) (hnew : Json.value room new = .ok (v, [])) :
    (∀ p t, ns.node? p = some t → p.path.length + room = FromText.depthLimit →
      (t ≠ .unrecognized → ∃ cs, Json.replaceAt p.path new text.toList = some cs) ∧
      ∀ cs, Json.replaceAt p.path new text.toList = some cs →
        ∃ ns', parse (String.ofList cs) = .ok ns' ∧ ns' = ns.putNode (.denoted v) p ∧
          ns'.node? p = some (.denoted v) ∧ ns'.putNode t p = ns) ∧
    (∀ way i e, ns.entryAt? way i = some e → (entryPath way i).length + room = FromText.depthLimit →
      ∃ cs, Json.replaceAt (entryPath way i) new text.toList = some cs ∧
        ∃ ns', parse (String.ofList cs) = .ok ns' ∧ ns' = ns.putEntry (entryOf ofJson v) way i ∧
          ns'.entryAt? way i = some (entryOf ofJson v) ∧ ns'.putEntry e way i = ns) := by
  have hp := proper_reader (m := FromText)
  constructor
  · intro p t ht hroom
    have hfocus := focused_node (m := FromText) p
    refine ⟨fun hne => Json.exists_replaceAt hp hfocus hread ht hne new, fun cs hcs => ?_⟩
    exact ⟨_, Json.run_replaceAt hp hfocus hread ht hcs hnew hroom, rfl,
      node?_putNode ht _, putNode_cancel ht _⟩
  · intro way i e he hroom
    have hfocus := focused_entry (m := FromText) way i
    obtain ⟨cs, hcs⟩ := Json.exists_replaceAt hp hfocus hread he trivial new
    exact ⟨cs, hcs, _, Json.run_replaceAt hp hfocus hread he hcs hnew hroom, rfl,
      entryAt?_putEntry he _, putEntry_cancel he _⟩

/-- A document with a list of lines in a child namespace. -/
def ordersText : String :=
  "\x7b\"name\": \"\", \"namespaces\": [\x7b\"name\": \"Shop\", \"models\": [" ++
    "\x7b\"name\": \"Order\", \"properties\": [\x7b\"name\": \"lines\", \"type\": " ++
      "\x7b\"kind\": \"array\", \"element\": \x7b\"kind\": \"model\", \"name\": \"Line\"\x7d\x7d" ++
    "\x7d]\x7d" ++
  "]\x7d]\x7d"

def orders : Namespace :=
  let lines : Property := { name := "lines", type := .array (.model "Line" none) }
  let order : Model := { name := "Order", properties := [lines] }
  { name := "", entries := [.child { name := "Shop", models := [order] }] }

/-- Where the lines of an order say what they are. -/
def lineItem : Place := { way := [0], model := 0, slot := .property 0, below := [.element] }

def unitText : List Char := "\x7b\"kind\": \"enum\", \"name\": \"Unit\"\x7d".toList

def unitJson : Json := .obj [("kind", .str "enum"), ("name", .str "Unit")]

def depotText : List Char := "\x7b\"name\": \"Depot\"\x7d".toList

def depotJson : Json := .obj [("name", .str "Depot")]

theorem parse_replaceAt_orders :
    parse ordersText = .ok orders ∧ orders.node? lineItem = some (.model "Line" none) ∧
      lineItem.path.length + 119 = FromText.depthLimit ∧
      (entryPath [] 0).length + 125 = FromText.depthLimit ∧
      Json.value 119 ['5'] = .ok (.int 5, []) ∧
      (∃ cs, Json.replaceAt lineItem.path ['5'] ordersText.toList = some cs ∧
        parse (String.ofList cs) = .ok (orders.putNode .unrecognized lineItem)) ∧
      Json.value 119 unitText = .ok (unitJson, []) ∧
      (∃ cs, Json.replaceAt lineItem.path unitText ordersText.toList = some cs ∧
        parse (String.ofList cs) = .ok (orders.putNode (.enum "Unit") lineItem)) ∧
      Json.value 125 ['5'] = .ok (.int 5, []) ∧
      (∃ cs, Json.replaceAt (entryPath [] 0) ['5'] ordersText.toList = some cs ∧
        parse (String.ofList cs) = .ok { name := "", entries := [.malformed (.int 5)] }) ∧
      Json.value 125 depotText = .ok (depotJson, []) ∧
      ∃ cs, Json.replaceAt (entryPath [] 0) depotText ordersText.toList = some cs ∧
        parse (String.ofList cs) = .ok { name := "", entries := [.child { name := "Depot" }] } := by
  have hread : parse ordersText = .ok orders := by cbv
  have hnode : orders.node? lineItem = some (.model "Line" none) := by cbv
  have hfive : Json.value 119 ['5'] = .ok (.int 5, []) := by cbv
  have hunit : Json.value 119 unitText = .ok (unitJson, []) := by cbv
  have hfive' : Json.value 125 ['5'] = .ok (.int 5, []) := by cbv
  have hdepot : Json.value 125 depotText = .ok (depotJson, []) := by cbv
  have hslot {new : List Char} {v : Json} (hnew : Json.value 119 new = .ok (v, [])) :
      ∃ cs, Json.replaceAt lineItem.path new ordersText.toList = some cs ∧
        parse (String.ofList cs) = .ok (orders.putNode (.denoted v) lineItem) := by
    obtain ⟨hfound, hput⟩ := (parse_replaceAt hread hnew).1 lineItem _ hnode rfl
    obtain ⟨cs, hcs⟩ := hfound (by simp)
    obtain ⟨_, hparse, rfl, -, -⟩ := hput cs hcs
    exact ⟨cs, hcs, hparse⟩
  have hchild {new : List Char} {v : Json} (hnew : Json.value 125 new = .ok (v, [])) :
      ∃ cs, Json.replaceAt (entryPath [] 0) new ordersText.toList = some cs ∧
        parse (String.ofList cs) = .ok { name := "", entries := [entryOf ofJson v] } := by
    obtain ⟨cs, hcs, _, hparse, rfl, -, -⟩ := (parse_replaceAt hread hnew).2 [] 0 _ rfl rfl
    exact ⟨cs, hcs, hparse⟩
  refine ⟨hread, hnode, rfl, rfl, hfive, ?_, hunit, ?_, hfive', ?_, hdepot, ?_⟩
  · rw [show TypeNode.unrecognized = .denoted (.int 5) by cbv]
    exact hslot hfive
  · rw [show TypeNode.enum "Unit" = .denoted unitJson by cbv]
    exact hslot hunit
  · rw [show EntryOf.malformed (.int 5) = entryOf ofJson (.int 5) by cbv]
    exact hchild hfive'
  · rw [show EntryOf.child { name := "Depot" } = entryOf ofJson depotJson by cbv]
    exact hchild hdepot

end Namespace

end ZodGraph
