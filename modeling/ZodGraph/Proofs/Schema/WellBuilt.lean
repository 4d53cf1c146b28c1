import Mathlib.Data.List.Basic
import Mathlib.Tactic
import ZodGraph.Schema.Assembly

/-!
Every expression of a module can be built. The validator library asks for two variants in a
union, for a value in an enum, and for string or number keys in a record, and the type of
expressions promises none of it. Each construction keeps it: unions, maps, containers, enums and
the indexers of models.
-/

namespace ZodGraph

open Schema (Expr Definition unionOf recordOf intrinsicOf)

namespace Schema

namespace Expr

/-- The expressions that one is made of. -/
def parts : Expr → List Expr
  | .array e => [e]
  | .record k v => [k, v]
  | .union es => es
  | .object fields catchall => fields.map FieldOf.expr ++ catchall.toList
  | _ => []

/-- An expression occurs in another one, at any depth. -/
inductive Within (e : Expr) : Expr → Prop where
  | self : Within e e
  | part {p a : Expr} (mem : p ∈ a.parts) (h : Within e p) : Within e a

/-- What is asked of an expression besides its parts. -/
def WellBuilt : Expr → Prop
  | .union es => 2 ≤ es.length
  | .enum vs => vs ≠ []
  | .record k _ => k = .primitive .string ∨ k = .primitive .number
  | .instanceOf c => c = "Blob"
  | .object fields (some _) => fields ≠ []
  | _ => True

/-- The expression is well built at every depth. -/
def Sound (e : Expr) : Prop := ∀ a, Within a e → a.WellBuilt

/-- An object, an array or a record. -/
def Composite : Expr → Prop
  | .object _ _ => True
  | .array _ => True
  | .record _ _ => True
  | _ => False

variable {e : Expr}

lemma sound_of_parts (h : e.WellBuilt) (hparts : ∀ p ∈ e.parts, p.Sound) : e.Sound := by
  intro a ha
  cases ha with
  | self => exact h
  | part mem ha => exact hparts _ mem a ha

lemma sound_leaf (h : e.WellBuilt) (hleaf : e.parts = []) : e.Sound :=
  sound_of_parts h (by simp [hleaf])

lemma sound_primitive (p : Primitive) : Sound (.primitive p) := sound_leaf trivial rfl

lemma Sound.array (h : e.Sound) : Sound (.array e) :=
  sound_of_parts trivial (by simpa [parts] using h)

lemma Sound.record {p : Primitive} (hp : p = .string ∨ p = .number) (h : e.Sound) :
    Sound (.record (.primitive p) e) := by
  apply sound_of_parts
  · simpa [WellBuilt] using hp
  · simpa [parts] using ⟨sound_primitive p, h⟩

lemma sound_object {fields : List Field} (h : ∀ f ∈ fields, f.expr.Sound) :
    Sound (.object fields none) :=
  sound_of_parts trivial (by simpa [parts] using h)

lemma Sound.catchall {fields : List Field} (hne : fields ≠ []) (h : ∀ f ∈ fields, f.expr.Sound)
    (hc : e.Sound) : Sound (.object fields (some e)) := by
  refine sound_of_parts ?_ fun p hp => ?_
  · exact hne
  simp only [parts, List.mem_append, List.mem_map, Option.toList_some, List.mem_singleton] at hp
  rcases hp with ⟨f, hf, rfl⟩ | rfl
  · exact h f hf
  · exact hc

end Expr

/-- A union is made only where it has two variants. -/
lemma sound_unionOf {es : List Expr} (h : ∀ e ∈ es, e.Sound) : (unionOf es).Sound := by
  rcases es with _ | ⟨e, _ | ⟨e', es⟩⟩
  · exact Expr.sound_primitive _
  · exact h e (by simp)
  · exact Expr.sound_of_parts (by simp [unionOf, Expr.WellBuilt]) h

/-- A record is made only where its keys can be checked. -/
lemma sound_recordOf (key : KeyKind) {e : Expr} (h : e.Sound) : (recordOf key e).Sound := by
  cases key with
  | string => exact h.record (Or.inl rfl)
  | integer => exact h.record (Or.inr rfl)
  | other => exact Expr.sound_primitive _

lemma sound_intrinsicOf (name : String) : (intrinsicOf name).Sound := by
  unfold intrinsicOf
  split <;> exact Expr.sound_primitive _

end Schema

open Schema (sound_unionOf sound_recordOf sound_intrinsicOf)

variable (scope : Scope)

lemma ScalarRef.sound_expr (s : ScalarRef) : s.expr.Sound := by
  unfold ScalarRef.expr
  split
  · rename_i f _
    cases f with
    | bytes => exact Expr.sound_leaf rfl rfl
    | _ => exact Expr.sound_leaf trivial rfl
  · exact Expr.sound_primitive _

lemma Scope.sound_modelExpr (name : String) : (scope.modelExpr name).Sound := by
  unfold Scope.modelExpr
  split_ifs <;> exact Expr.sound_leaf trivial rfl

lemma Scope.sound_enumExpr (name : String) : (scope.enumExpr name).Sound := by
  unfold Scope.enumExpr
  split_ifs <;> exact Expr.sound_leaf trivial rfl

mutual

theorem TypeNode.sound_expr (t : TypeNode) : (t.expr scope).Sound := by
  cases t with
  | scalar s => exact s.sound_expr
  | model name indexer =>
    cases indexer with
    | none => exact scope.sound_modelExpr name
    | some ix =>
      obtain ⟨key, value⟩ := ix
      rw [TypeNode.expr_model]
      split_ifs
      · exact value.sound_expr.array
      · exact sound_recordOf key value.sound_expr
      · exact scope.sound_modelExpr name
  | enum name => exact scope.sound_enumExpr name
  | union variants => exact sound_unionOf (sound_exprAll variants)
  | array element => exact element.sound_expr.array
  | map key value => exact sound_recordOf key value.sound_expr
  | object properties => exact Expr.sound_object (sound_propertyFields properties)
  | literal v => exact Expr.sound_leaf trivial rfl
  | intrinsic name => exact sound_intrinsicOf name
  | unrecognized => exact Expr.sound_primitive _

theorem sound_exprAll (ts : List TypeNode) : ∀ e ∈ exprAll scope ts, e.Sound := by
  cases ts with
  | nil => simp [exprAll]
  | cons t ts => exact List.forall_mem_cons.2 ⟨t.sound_expr, sound_exprAll ts⟩

theorem sound_propertyFields (ps : List (PropertyOf TypeNode)) :
    ∀ f ∈ propertyFields scope ps, f.expr.Sound := by
  cases ps with
  | nil => simp [propertyFields]
  | cons p ps =>
    obtain ⟨_, type, _⟩ := p
    exact List.forall_mem_cons.2 ⟨type.sound_expr, sound_propertyFields ps⟩

end

/-- The validator of a model is sound, and never a mere reference, a union or a leaf. -/
theorem Model.sound_expr (m : Model) : (m.expr scope).Sound ∧ (m.expr scope).Composite := by
  have hfields := sound_propertyFields scope m.properties
  unfold Model.expr
  rcases m.indexer with _ | ⟨key, value⟩
  · exact ⟨Expr.sound_object hfields, trivial⟩
  · have hvalue := value.sound_expr scope
    rcases hps : propertyFields scope m.properties with _ | ⟨f, fs⟩
    · -- the indexer is the whole model
      cases key with
      | integer => exact ⟨hvalue.array, trivial⟩
      | string | other => exact ⟨hvalue.record (Or.inl rfl), trivial⟩
    · rw [hps] at hfields
      cases key with
      | integer => exact ⟨Expr.sound_object hfields, trivial⟩
      | string | other => exact ⟨hvalue.catchall (by simp) hfields, trivial⟩

/-- An enum without members has no values to list, and one with a number lists literals. -/
theorem Enumeration.sound_expr (e : Enumeration) : e.expr.Sound := by
  unfold Enumeration.expr
  split_ifs with hnone
  · exact Expr.sound_primitive _
  · refine sound_unionOf fun a ha => ?_
    obtain ⟨m, -, rfl⟩ := List.mem_map.1 ha
    exact Expr.sound_leaf trivial rfl
  · refine Expr.sound_leaf ?_ rfl
    simpa [Expr.WellBuilt] using hnone

lemma sound_defineModels (ms : List Model) :
    ∀ d ∈ defineModels scope ms, d.expr.Sound ∧ d.expr.Composite := by
  induction ms generalizing scope with
  | nil => simp [defineModels]
  | cons m ms ih => exact List.forall_mem_cons.2 ⟨m.sound_expr scope, ih _⟩

namespace Selection

/-- **Every expression can be built**: in each definition of a module, and at any depth in it, a
union has two variants, an enum a value, a record string or number keys, and an object with a
catchall a field, and only `Blob` is asked for by its class. The definition of a model is an
object, an array or a record. -/
theorem definitions_wellBuilt (s : Selection) (o : Options) :
    (∀ d ∈ (s.module o).definitions, ∀ e : Expr, e.Within d.expr → e.WellBuilt) ∧
    ∀ d ∈ (s.module o).models, d.expr.Composite := by
  have hmodels := sound_defineModels s.scope s.dependencyGraph.order
  refine ⟨fun d hd => ?_, fun d hd => (hmodels d hd).2⟩
  rcases List.mem_append.1 hd with hd | hd
  · obtain ⟨e, -, rfl⟩ := List.mem_map.1 hd
    exact e.sound_expr
  · exact (hmodels d hd).1

/-- A model with a union, a map and a catchall, and an enum with a number. -/
def assets : Selection where
  models := [
    { name := "Asset",
      properties := [⟨"content", .union [.scalar { name := "bytes" },
        .map .integer (.scalar { name := "string" })], false⟩],
      indexer := some ⟨.string, .enum "Level"⟩ }]
  enums := [{ name := "Level", members := [⟨"low", some (.int 1)⟩, ⟨"high", none⟩] }]

def assetContent : List Expr :=
  [.instanceOf "Blob", .record (.primitive .number) (.primitive .string)]

def assetDefinition : Definition where
  name := "Asset"
  expr := .object [⟨"content", .union assetContent, false⟩] (some (.ref "Level"))

def levelDefinition : Definition where
  name := "Level"
  expr := .union [.literal (.int 1), .literal (.string "high")]

theorem definitions_wellBuilt_assets :
    (assets.module {}).definitions = [levelDefinition, assetDefinition] ∧
    (assets.module {}).models = [assetDefinition] ∧
    (∀ e ∈ assetContent, e.Within assetDefinition.expr) ∧
    2 ≤ assetContent.length ∧ (∀ e ∈ assetContent, e.WellBuilt) ∧
    levelDefinition.expr.WellBuilt ∧ assetDefinition.expr.WellBuilt ∧
    assetDefinition.expr.Composite := by
  have hdefs : (assets.module {}).definitions = [levelDefinition, assetDefinition] := rfl
  have hmodels : (assets.module {}).models = [assetDefinition] := rfl
  obtain ⟨hbuilt, hcomposite⟩ := definitions_wellBuilt assets {}
  have hlevel := hbuilt levelDefinition (by simp [hdefs])
  have hasset := hbuilt assetDefinition (by simp [hdefs])
  have hunion : .union assetContent ∈ assetDefinition.expr.parts := by
    simp [assetDefinition, Expr.parts]
  have hcontent : ∀ e ∈ assetContent, e.Within assetDefinition.expr :=
    fun e he => .part hunion (.part he .self)
  exact ⟨hdefs, hmodels, hcontent, hasset _ (.part hunion .self),
    fun e he => hasset e (hcontent e he), hlevel _ .self, hasset _ .self,
    hcomposite _ (by simp [hmodels])⟩

end Selection

end ZodGraph
