import ZodGraph.Proofs.Acceptance.Validator
import ZodGraph.Proofs.Selection

/-!
A selection has exactly one reading, and it is the one reading of its module. Names are looked up
only at parts of the value in question, since a model looks into its value before anything else;
so the readings are found by recursion on values.
-/

namespace ZodGraph

open Schema (Module)

variable {c : Checks} {s : Selection} {o : Options} {ρ ρ' : Meaning} {v : Datum}

/-! ### Parts of values -/

namespace Datum

lemma sizeOf_item {items : List Datum} {x : Datum} (h : x ∈ items) :
    sizeOf x < sizeOf (Datum.array items) := by
  have := List.sizeOf_lt_of_mem h
  simp only [array.sizeOf_spec]
  omega

lemma sizeOf_entry {entries : List (String × Datum)} {e : String × Datum} (h : e ∈ entries) :
    sizeOf e.2 < sizeOf (Datum.object entries) := by
  obtain ⟨key, x⟩ := e
  have := List.sizeOf_lt_of_mem h
  simp only [object.sizeOf_spec, Prod.mk.sizeOf_spec] at this ⊢
  omega

/-- What stands at a key is smaller than the object, also if it is missing. -/
lemma sizeOf_get (entries : List (String × Datum)) (key : String) :
    sizeOf (get entries key) < sizeOf (Datum.object entries) := by
  unfold get
  rcases h : entries.lookup key with _ | x
  · simp only [Option.getD_none, undefined.sizeOf_spec, object.sizeOf_spec]
    cases entries <;> simp
  · obtain ⟨l₁, l₂, heq, -⟩ := List.lookup_eq_some_iff.1 h
    exact sizeOf_entry (e := (key, x)) (by simp [heq])

variable {p q : Datum → Prop}

lemma eachItem_congr (h : ∀ x, sizeOf x < sizeOf v → (p x ↔ q x)) :
    v.EachItem p ↔ v.EachItem q := by
  refine exists_congr fun items => and_congr_right fun hv => ?_
  subst hv
  exact forall₂_congr fun x hx => h x (sizeOf_item hx)

lemma eachEntry_congr {k : String → Prop} (h : ∀ x, sizeOf x < sizeOf v → (p x ↔ q x)) :
    v.EachEntry k p ↔ v.EachEntry k q := by
  refine exists_congr fun entries => and_congr_right fun hv => ?_
  subst hv
  exact forall₂_congr fun e he => and_congr_right fun _ => h e.2 (sizeOf_entry he)

end Datum

lemma KeyKind.map_congr {key : KeyKind} {p q : Datum → Prop}
    (h : ∀ x, sizeOf x < sizeOf v → (p x ↔ q x)) : key.Map c p v ↔ key.Map c q v := by
  unfold KeyKind.Map
  cases key with
  | string | integer => exact Datum.eachEntry_congr h
  | other => rfl

/-! ### Names are looked up at parts -/

/-- Two meanings agree on all values below a size. -/
def Meaning.AgreeBelow (size : Nat) (ρ ρ' : Meaning) : Prop :=
  ∀ n x, sizeOf x < size → (ρ n x ↔ ρ' n x)

lemma Meaning.AgreeBelow.mono {k k' : Nat} (h : Meaning.AgreeBelow k' ρ ρ') (hk : k ≤ k') :
    Meaning.AgreeBelow k ρ ρ' := fun n x hx => h n x (by omega)

mutual

/-- A node looks names up at the value or at parts of it. -/
theorem TypeNode.accepts_congr (t : TypeNode) {v : Datum}
    (h : Meaning.AgreeBelow (sizeOf v + 1) ρ ρ') : t.Accepts c s ρ v ↔ t.Accepts c s ρ' v := by
  cases t with
  | scalar | literal | intrinsic | unrecognized => rfl
  | model name indexer =>
    have hname := h name v (by omega)
    cases indexer with
    | none => simp only [TypeNode.Accepts, hname]
    | some ix =>
      obtain ⟨key, value⟩ := ix
      have ih := fun x hx => value.accepts_congr (v := x) (h.mono hx)
      simp only [TypeNode.Accepts, hname]
      split_ifs
      · exact Datum.eachItem_congr fun x hx => ih x (by omega)
      · exact KeyKind.map_congr fun x hx => ih x (by omega)
      · rfl
  | enum name => simp only [TypeNode.Accepts, h name v (by omega)]
  | union variants => exact describesSome_congr variants h
  | array element =>
    exact Datum.eachItem_congr fun x hx => element.accepts_congr (h.mono (by omega))
  | map key value =>
    exact KeyKind.map_congr fun x hx => value.accepts_congr (h.mono (by omega))
  | object properties =>
    refine exists_congr fun entries => and_congr_right fun hv => ?_
    subst hv
    exact hasProperties_congr properties (h.mono (by omega))

theorem describesSome_congr (ts : List TypeNode) {v : Datum}
    (h : Meaning.AgreeBelow (sizeOf v + 1) ρ ρ') :
    DescribesSome c s ρ ts v ↔ DescribesSome c s ρ' ts v := by
  cases ts with
  | nil => rfl
  | cons t ts =>
    simp only [DescribesSome, t.accepts_congr h, describesSome_congr ts h]

theorem hasProperties_congr (ps : List (PropertyOf TypeNode)) {entries : List (String × Datum)}
    (h : Meaning.AgreeBelow (sizeOf (Datum.object entries)) ρ ρ') :
    HasProperties c s ρ entries ps ↔ HasProperties c s ρ' entries ps := by
  cases ps with
  | nil => rfl
  | cons p ps =>
    obtain ⟨name, type, optional⟩ := p
    have hsize := Datum.sizeOf_get entries name
    have ih := type.accepts_congr (v := Datum.get entries name) (h.mono (by omega))
    simp only [HasProperties, Datum.Slot, ih, hasProperties_congr ps h]

end

/-- A model looks names up at parts of the value only. -/
lemma Model.accepts_congr (m : Model) (h : Meaning.AgreeBelow (sizeOf v) ρ ρ') :
    m.Accepts c s ρ v ↔ m.Accepts c s ρ' v := by
  unfold Model.Accepts
  split
  · exact Datum.eachItem_congr fun x hx => TypeNode.accepts_congr _ (h.mono (by omega))
  · exact Datum.eachEntry_congr fun x hx => TypeNode.accepts_congr _ (h.mono (by omega))
  · refine exists_congr fun entries => and_congr_right fun hv => ?_
    subst hv
    refine and_congr (hasProperties_congr _ h) ?_
    refine forall₃_congr fun ix _ _ => forall₃_congr fun e he _ => ?_
    have hsize := Datum.sizeOf_entry he
    exact ix.value.accepts_congr (h.mono (by omega))

lemma Selection.accepts_congr {n : String} (h : Meaning.AgreeBelow (sizeOf v) ρ ρ') :
    s.Accepts c ρ n v ↔ s.Accepts c ρ' n v := by
  unfold Selection.Accepts
  simp only [Model.accepts_congr _ h]

/-! ### The one reading -/

/-- The values each name describes, by recursion on the value. -/
def Selection.meaning (c : Checks) (s : Selection) (n : String) (v : Datum) : Prop :=
  s.Accepts c (fun n' x => ∃ _ : sizeOf x < sizeOf v, s.meaning c n' x) n v
termination_by sizeOf v

theorem Selection.reads_meaning (c : Checks) (s : Selection) : s.Reads c (s.meaning c) := by
  intro n v
  rw [Selection.meaning]
  exact Selection.accepts_congr fun n' x hx => ⟨fun ⟨_, h⟩ => h, fun h => ⟨hx, h⟩⟩

/-- There is no other reading. -/
theorem Selection.Reads.unique (h : s.Reads c ρ) (h' : s.Reads c ρ') (n : String) (v : Datum) :
    ρ n v ↔ ρ' n v := by
  rw [h n v, h' n v]
  exact Selection.accepts_congr fun n' x hx => h.unique h' n' x
termination_by sizeOf v

/-! ### Modules -/

lemma Selection.mem_order_iff (hs : s.names.Nodup) {m : Model} :
    m ∈ s.dependencyGraph.order ↔ m ∈ s.models := by
  have hmodels : ∀ {m : Model}, m ∈ s.dependencyGraph.order → m ∈ s.models := by
    intro m hm
    obtain ⟨node, hnode, rfl⟩ := DependencyGraph.exists_node_of_mem_order hm
    obtain ⟨m, hmem, rfl⟩ := exists_model_of_mem_nodes hnode
    exact hmem
  refine ⟨hmodels, fun hm => ?_⟩
  have hname : m.name ∈ s.dependencyGraph.order.map Model.name :=
    DependencyGraph.mem_order_names.2 (mem_names_dependencyGraph.2 (List.mem_map_of_mem hm))
  obtain ⟨m', hm', heq⟩ := List.mem_map.1 hname
  rwa [← List.inj_on_of_nodup_map (List.nodup_append.1 hs).1 (hmodels hm') hm heq]

/-- A module accepts by name what the declarations describe, whatever the names inside them
accept. -/
theorem Selection.accepts_module (hs : s.names.Nodup) (n : String) (v : Datum) :
    (s.module o).Accepts c ρ n v ↔ s.Accepts c ρ n v := by
  have hmodels : (∃ d ∈ (s.module o).models, d.name = n ∧ d.expr.Accepts c ρ v) ↔
      ∃ m ∈ s.models, m.name = n ∧ m.Accepts c s ρ v := by
    constructor
    · rintro ⟨d, hd, hname, hacc⟩
      obtain ⟨i, hi⟩ := List.mem_iff_getElem?.1 hd
      rw [Selection.module, getElem?_defineModels] at hi
      obtain ⟨m, hm, rfl⟩ := Option.map_eq_some_iff.1 hi
      exact ⟨m, (mem_order_iff hs).1 (List.mem_of_getElem? hm), hname,
        (m.accepts_expr (Scope.covers_defineAll _) v).1 hacc⟩
    · rintro ⟨m, hm, hname, hacc⟩
      obtain ⟨i, hi⟩ := List.mem_iff_getElem?.1 ((mem_order_iff hs).2 hm)
      refine ⟨⟨m.name, m.expr (s.scope.defineAll (s.dependencyGraph.order.take i))⟩,
        List.mem_of_getElem? (i := i) ?_, hname,
        (m.accepts_expr (Scope.covers_defineAll _) v).2 hacc⟩
      rw [Selection.module, getElem?_defineModels, hi, Option.map_some]
  have henums : (∃ d ∈ (s.module o).enums, d.name = n ∧ d.expr.Accepts c ρ v) ↔
      ∃ e ∈ s.enums, e.name = n ∧ e.Accepts v := by
    simp [Selection.module, Enumeration.accepts_expr]
  unfold Module.Accepts Module.definitions Selection.Accepts
  rw [← hmodels, ← henums, or_comm]
  simp only [List.mem_append, or_and_right, exists_or]

lemma Selection.reads_module_iff (hs : s.names.Nodup) : (s.module o).Reads c ρ ↔ s.Reads c ρ :=
  forall₂_congr fun n v => by rw [accepts_module hs]

/-- **Modules keep the meaning of declarations.** The definitions of a module, read by name, and
the declarations it is made for, read by name, have one reading each, and the two accept the same
values under every name. Names are never declared twice in the selection of a graph. -/
theorem module_keeps_meaning (c : Checks) (o : Options) :
    (∀ root : Namespace, root.selection.names.Nodup) ∧
    ∀ s : Selection, s.names.Nodup →
      (∃ ρ, (s.module o).Reads c ρ) ∧ (∃ ρ, s.Reads c ρ) ∧
      ∀ ρ ρ', (s.module o).Reads c ρ → s.Reads c ρ' → ∀ n v, ρ n v ↔ ρ' n v := by
  refine ⟨Namespace.nodup_selection, fun s hs => ?_⟩
  have hreads := s.reads_meaning c
  refine ⟨⟨_, (Selection.reads_module_iff hs).2 hreads⟩, ⟨_, hreads⟩, ?_⟩
  intro ρ ρ' h h'
  exact ((Selection.reads_module_iff hs).1 h).unique h'

/-- Checks that look at the kind of a value only. -/
def kindChecks : Checks where
  text v := ∃ s, v = .string s
  number v := ∃ x, v = .number x
  boolean v := ∃ b, v = .boolean b
  date v := v = .foreign "Date"
  null v := v = .null
  void v := v = .undefined
  url v := ∃ s, v = .string s
  instanceOf name v := v = .foreign name

/-- Two models that refer to each other, an enum, and scalars that are derived from others. One of
them is named like a root that it does not have. -/
def posts : Selection where
  models := [
    { name := "Post",
      properties := [⟨"author", .model "User" none, false⟩, ⟨"status", .enum "Status", false⟩,
        ⟨"slug", .scalar ⟨"shortId", ["uuid", "string"]⟩, false⟩,
        ⟨"score", .scalar ⟨"string", ["custom"]⟩, false⟩] },
    { name := "User", properties := [⟨"pinned", .model "Post" none, true⟩] }]
  enums := [{ name := "Status", members := [⟨"draft", none⟩, ⟨"live", none⟩] }]

def postDatum (status : String) (slug score : Datum) : Datum :=
  .object [("author", .object []), ("status", .string status), ("slug", slug), ("score", score)]

lemma Selection.Reads.post_iff (h : posts.Reads kindChecks ρ) (status : String)
    (slug score : Datum) : ρ "Post" (postDatum status slug score) ↔
      (status = "draft" ∨ status = "live") ∧ ∃ s, slug = .string s := by
  have huser : ρ "User" (.object []) := by
    rw [h "User"]
    simp [Selection.Accepts, posts, Model.Accepts, HasProperties, Datum.Slot, Datum.get]
  have hstatus : ρ "Status" (.string status) ↔ status = "draft" ∨ status = "live" := by
    rw [h "Status"]
    simp [Selection.Accepts, posts, Enumeration.Accepts, Member.effective]
  have hslug : ScalarRef.Accepts kindChecks ⟨"shortId", ["uuid", "string"]⟩ slug ↔
      ∃ s, slug = .string s := by
    simp [ScalarRef.accepts_iff, ScalarRef.root, Checks.roots, kindChecks]
  have hscore : ScalarRef.Accepts kindChecks ⟨"string", ["custom"]⟩ score := by
    simp [ScalarRef.accepts_iff, ScalarRef.root, Checks.roots]
  rw [← hstatus, ← hslug, h "Post"]
  simp [Selection.Accepts, posts, Model.Accepts, HasProperties, Datum.Slot, Datum.get,
    postDatum, TypeNode.Accepts, List.lookup_cons, huser, hscore]

theorem module_keeps_meaning_posts : posts.names.Nodup ∧
    ∀ ρ, (posts.module {}).Reads kindChecks ρ →
      (∀ score, ρ "Post" (postDatum "draft" (.string "a-1") score)) ∧
      ¬ ρ "Post" (postDatum "gone" (.string "a-1") .null) ∧
      ¬ ρ "Post" (postDatum "draft" (.boolean true) .null) := by
  have hs : posts.names.Nodup := by decide
  obtain ⟨-, ⟨ρ', reads⟩, same⟩ := (module_keeps_meaning kindChecks {}).2 _ hs
  refine ⟨hs, fun ρ hρ => ?_⟩
  simp only [same ρ ρ' hρ reads, reads.post_iff]
  simp

end ZodGraph
