import ZodGraph.Proofs.Acceptance
import ZodGraph.Proofs.Schema.Reference

/-!
The validators of nodes, models and enums accept the values that these describe, whatever the
names accept. What has been defined does not matter: direct and deferred references accept the
same.
-/

namespace ZodGraph

open Schema

variable {c : Checks} {s : Selection} {ρ : Meaning} {scope : Scope} {v : Datum}

namespace Schema

lemma acceptsSome_iff {es : List Expr} :
    AcceptsSome c ρ es v ↔ ∃ e ∈ es, e.Accepts c ρ v := by
  induction es with
  | nil => simp [AcceptsSome]
  | cons e es ih => simp [AcceptsSome, ih]

/-- Unions of no and of one variant accept what the union would. -/
lemma accepts_unionOf (es : List Expr) : (unionOf es).Accepts c ρ v ↔ AcceptsSome c ρ es v := by
  rcases es with _ | ⟨e, _ | ⟨e', es⟩⟩
  · simp [unionOf, Expr.Accepts, Primitive.Accepts, AcceptsSome]
  · simp [unionOf, AcceptsSome]
  · simp [unionOf, Expr.Accepts]

lemma accepts_recordOf (key : KeyKind) (e : Expr) :
    (recordOf key e).Accepts c ρ v ↔ key.Map c (fun x => e.Accepts c ρ x) v := by
  cases key <;> simp [recordOf, Expr.Accepts, Primitive.Accepts, KeyKind.Map, Expr.unknown]

lemma accepts_intrinsicOf (name : String) :
    (intrinsicOf name).Accepts c ρ v ↔ intrinsicAccepts c name v := by
  unfold intrinsicOf intrinsicAccepts
  split <;> simp [Expr.Accepts, Primitive.Accepts, Expr.unknown]

end Schema

/-! ### Scalars -/

namespace ScalarRef

lemma root_derived (name base : String) (bases : List String) :
    (ScalarRef.mk name (base :: bases)).root = (ScalarRef.mk base bases).root :=
  List.getLastD_cons

lemma hasRoot_root (name : String) (bases : List String) :
    HasRoot ⟨name, bases⟩ (ScalarRef.mk name bases).root := by
  induction bases generalizing name with
  | nil => exact .self rfl
  | cons base bases ih =>
    rw [root_derived]
    exact .base rfl (ih base)

/-- Every chain has one root, and the validator is chosen by it. -/
lemma hasRoot_iff {r : ScalarRef} {root : String} : r.HasRoot root ↔ root = r.root := by
  constructor
  · intro h
    induction h with
    | @self s hnone =>
      obtain ⟨name, _ | ⟨b, bs⟩⟩ := s
      · rfl
      · cases hnone
    | @base s b root hsome _ ih =>
      obtain ⟨name, _ | ⟨b', bs⟩⟩ := s
      · cases hsome
      · obtain rfl := Option.some.inj hsome
        rw [ih, root_derived]
  · rintro rfl
    exact hasRoot_root r.name r.bases

lemma accepts_iff {r : ScalarRef} :
    r.Accepts c v ↔ ∀ row ∈ c.roots, r.root ∈ row.1 → row.2 v := by
  simp [Accepts, hasRoot_iff]

end ScalarRef

lemma ScalarFamily.ofName?_eq_none {name : String} (h : ∀ row ∈ c.roots, name ∉ row.1) :
    ofName? name = none := by
  simp only [Checks.roots, List.forall_mem_cons] at h
  obtain ⟨hstring, hnumber, hboolean, hdate, hduration, hurl, hbytes, -⟩ := h
  unfold ofName?
  rw [if_neg (show name ∉ numberNames from hnumber), if_neg (show name ∉ dateNames from hdate)]
  split
  · simp at hstring
  · simp at hboolean
  · simp at hduration
  · simp at hurl
  · simp at hbytes
  · rfl

/-- The validator of a known root makes the check of its row. -/
lemma ScalarFamily.exists_accepts {name : String} {row : List String × (Datum → Prop)}
    (hrow : row ∈ c.roots) (hname : name ∈ row.1) :
    ∃ f, ofName? name = some f ∧ ∀ v, f.expr.Accepts c ρ v ↔ row.2 v := by
  have hnumber : ∀ n ∈ numberNames, ofName? n = some number := by decide
  have hdate : ∀ n ∈ dateNames, ofName? n = some date := by decide
  simp only [Checks.roots, List.mem_cons, List.not_mem_nil, or_false] at hrow
  rcases hrow with rfl | rfl | rfl | rfl | rfl | rfl | rfl
  · obtain rfl := List.mem_singleton.1 hname
    exact ⟨string, rfl, fun v => Iff.rfl⟩
  · exact ⟨number, hnumber name hname, fun v => Iff.rfl⟩
  · obtain rfl := List.mem_singleton.1 hname
    exact ⟨boolean, rfl, fun v => Iff.rfl⟩
  · exact ⟨date, hdate name hname, fun v => Iff.rfl⟩
  · obtain rfl := List.mem_singleton.1 hname
    exact ⟨duration, rfl, fun v => Iff.rfl⟩
  · obtain rfl := List.mem_singleton.1 hname
    exact ⟨url, rfl, fun v => Iff.rfl⟩
  · obtain rfl := List.mem_singleton.1 hname
    exact ⟨bytes, rfl, fun v => Iff.rfl⟩

lemma ScalarRef.accepts_expr (r : ScalarRef) : r.expr.Accepts c ρ v ↔ r.Accepts c v := by
  rw [accepts_iff, ScalarRef.expr]
  by_cases hknown : ∃ row ∈ c.roots, r.root ∈ row.1
  · obtain ⟨row, hrow, hname⟩ := hknown
    obtain ⟨f, hf, haccepts⟩ := ScalarFamily.exists_accepts (ρ := ρ) hrow hname
    rw [hf]
    constructor
    · intro h row' hrow' hname'
      obtain ⟨f', hf', haccepts'⟩ := ScalarFamily.exists_accepts (ρ := ρ) hrow' hname'
      obtain rfl : f = f' := Option.some.inj (hf.symm.trans hf')
      exact (haccepts' v).1 h
    · intro h
      exact (haccepts v).2 (h row hrow hname)
  · have hnone : ∀ row ∈ c.roots, r.root ∉ row.1 := by simpa using hknown
    rw [ScalarFamily.ofName?_eq_none hnone]
    refine iff_of_true trivial fun row hrow hname => absurd hname (hnone row hrow)

lemma Scope.accepts_modelExpr (name : String) :
    (scope.modelExpr name).Accepts c ρ v ↔ (name ∈ scope.models → ρ name v) := by
  unfold Scope.modelExpr
  split_ifs with hm hd <;> simp [hm, Expr.Accepts, Expr.unknown, Primitive.Accepts]

lemma Scope.accepts_enumExpr (name : String) :
    (scope.enumExpr name).Accepts c ρ v ↔ (name ∈ scope.enums → ρ name v) := by
  unfold Scope.enumExpr
  split_ifs with he <;> simp [he, Expr.Accepts, Expr.unknown, Primitive.Accepts]

/-- A scope that knows the names of a selection. -/
structure Scope.Covers (scope : Scope) (s : Selection) : Prop where
  models : scope.models = s.models.map Model.name
  enums : scope.enums = s.enums.map Enumeration.name

lemma Scope.covers_defineAll (ms : List Model) : (s.scope.defineAll ms).Covers s :=
  ⟨Scope.defineAll_models, Scope.defineAll_enums⟩

mutual

theorem TypeNode.accepts_expr (h : scope.Covers s) (t : TypeNode) (v : Datum) :
    (t.expr scope).Accepts c ρ v ↔ t.Accepts c s ρ v := by
  cases t with
  | scalar r => exact r.accepts_expr
  | model name indexer =>
    cases indexer with
    | none => rw [TypeNode.expr, Scope.accepts_modelExpr, TypeNode.Accepts, h.models]
    | some ix =>
      obtain ⟨key, value⟩ := ix
      have ih := value.accepts_expr h
      rw [TypeNode.expr_model]
      simp only [TypeNode.Accepts]
      split_ifs
      · simp only [Expr.Accepts, ih]
      · simp only [accepts_recordOf, ih]
      · rw [Scope.accepts_modelExpr, h.models]
  | enum name => rw [TypeNode.expr, Scope.accepts_enumExpr, TypeNode.Accepts, h.enums]
  | union variants =>
    rw [TypeNode.expr, accepts_unionOf, TypeNode.Accepts]
    exact acceptsSome_exprAll h variants v
  | array element =>
    have ih := element.accepts_expr h
    simp only [TypeNode.expr, TypeNode.Accepts, Expr.Accepts, ih]
  | map key value =>
    have ih := value.accepts_expr h
    simp only [TypeNode.expr, TypeNode.Accepts, accepts_recordOf, ih]
  | object properties =>
    have ih := fun entries => acceptsFields_propertyFields h entries properties
    simp only [TypeNode.expr, TypeNode.Accepts, Expr.Accepts, AcceptsRest, and_true, ih]
  | literal l => rfl
  | intrinsic name => exact accepts_intrinsicOf name
  | unrecognized => simp [TypeNode.expr, TypeNode.Accepts, Expr.unknown, Expr.Accepts,
      Primitive.Accepts]

theorem acceptsSome_exprAll (h : scope.Covers s) (ts : List TypeNode) (v : Datum) :
    AcceptsSome c ρ (exprAll scope ts) v ↔ DescribesSome c s ρ ts v := by
  cases ts with
  | nil => rfl
  | cons t ts =>
    have ih := t.accepts_expr h v
    have ihs := acceptsSome_exprAll h ts v
    simp only [exprAll, AcceptsSome, DescribesSome, ih, ihs]

theorem acceptsFields_propertyFields (h : scope.Covers s) (entries : List (String × Datum))
    (ps : List (PropertyOf TypeNode)) :
    AcceptsFields c ρ entries (propertyFields scope ps) ↔ HasProperties c s ρ entries ps := by
  cases ps with
  | nil => rfl
  | cons p ps =>
    obtain ⟨name, type, optional⟩ := p
    have ih := type.accepts_expr h
    have ihs := acceptsFields_propertyFields h entries ps
    simp only [propertyFields, AcceptsFields, HasProperties, ih, ihs]

end

lemma names_propertyFields (scope : Scope) (ps : List Property) :
    (propertyFields scope ps).map FieldOf.name = ps.map PropertyOf.name := by
  simp [propertyFields_eq_map, PropertyOf.field]

/-- An object with a field for each property, and the other entries as given. -/
lemma accepts_object (h : scope.Covers s) (ps : List Property) (rest : Option Expr) (v : Datum) :
    (Expr.object (propertyFields scope ps) rest).Accepts c ρ v ↔
      ∃ entries, v = .object entries ∧ HasProperties c s ρ entries ps ∧
        AcceptsRest c ρ (entries.filter fun e => e.1 ∉ ps.map PropertyOf.name) rest := by
  have hfields := fun entries =>
    acceptsFields_propertyFields (c := c) (ρ := ρ) h entries ps
  simp only [Expr.Accepts, hfields, names_propertyFields]

/-- Beside properties, an indexer is a catchall unless its keys are integers. -/
lemma Model.expr_of_properties {m : Model} {ix : Indexer} (hp : m.properties ≠ [])
    (hix : m.indexer = some ix) : m.expr scope = .object (propertyFields scope m.properties)
      (if ix.key = .integer then none else some (ix.value.expr scope)) := by
  obtain ⟨p, ps, hps⟩ := List.exists_cons_of_ne_nil hp
  obtain ⟨key, value⟩ := ix
  unfold Model.expr
  rw [hix, hps]
  cases key <;> rfl

lemma Model.accepts_of_properties {m : Model} {ix : Indexer} (hp : m.properties ≠ [])
    (hix : m.indexer = some ix) : m.Accepts c s ρ v ↔ ∃ entries, v = .object entries ∧
      HasProperties c s ρ entries m.properties ∧ (ix.key ≠ .integer →
        ∀ e ∈ entries, e.1 ∉ m.properties.map PropertyOf.name → ix.value.Accepts c s ρ e.2) := by
  obtain ⟨p, ps, hps⟩ := List.exists_cons_of_ne_nil hp
  unfold Model.Accepts
  rw [hix, hps]
  simp

/-- The validator of a model accepts what the model describes. -/
theorem Model.accepts_expr (h : scope.Covers s) (m : Model) (v : Datum) :
    (m.expr scope).Accepts c ρ v ↔ m.Accepts c s ρ v := by
  rcases hix : m.indexer with _ | ix
  · have hexpr : m.expr scope = .object (propertyFields scope m.properties) none := by
      simp [Model.expr, hix]
    rw [hexpr, accepts_object h]
    simp [Model.Accepts, hix, AcceptsRest]
  · have ih := ix.value.accepts_expr (c := c) (ρ := ρ) h
    by_cases hp : m.properties = []
    · obtain ⟨key, value⟩ := ix
      cases key <;>
        simp [Model.expr, Model.Accepts, hix, hp, propertyFields, Expr.Accepts, ih,
          Primitive.Accepts]
    · rw [Model.expr_of_properties hp hix, Model.accepts_of_properties hp hix, accepts_object h]
      by_cases hkey : ix.key = .integer
      · simp [hkey, AcceptsRest]
      · simp [hkey, AcceptsRest, ih]

/-- The validator of an enum accepts the effective values of its members. -/
theorem Enumeration.accepts_expr (e : Enumeration) (v : Datum) :
    e.expr.Accepts c ρ v ↔ e.Accepts v := by
  unfold Enumeration.expr Enumeration.Accepts
  split_ifs with hnone hnumeric
  · have hmembers : e.members = [] := by simpa using hnone
    simp [hmembers, Expr.Accepts, Primitive.Accepts]
  · have hvalue : ∀ m : Member, m.literal.value = m.effective := by
      intro m
      unfold Member.literal Member.effective
      rcases m.value with _ | _ | _ | _ <;> rfl
    simp [accepts_unionOf, acceptsSome_iff, Expr.Accepts, hvalue]
  · have htext : ∀ m ∈ e.members, Datum.string m.label = m.effective := by
      intro m hm
      have hplain : m.isNumeric = false := by
        simpa using fun h => hnumeric (List.any_eq_true.2 ⟨m, hm, h⟩)
      unfold Member.isNumeric at hplain
      unfold Member.label Member.effective
      rcases hv : m.value with _ | _ | _ | _ <;> simp_all
    simp only [Expr.Accepts, List.mem_map, exists_exists_and_eq_and]
    exact exists_congr fun m => and_congr_right fun hm => by rw [htext m hm]

end ZodGraph
