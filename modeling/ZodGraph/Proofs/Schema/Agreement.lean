import ZodGraph.Proofs.Schema.Mention

/-!
What a model depends on and what its validator refers to. The validator refers to nothing else,
and where no value is dropped it refers to the same names in the same order. A value is dropped
under a map or a `Record` with keys that are neither strings nor integers, and under an indexer
with integer keys beside properties.
-/

namespace ZodGraph

open Schema (Expr Mention unionOf recordOf mentionsAll fieldMentions catchallMentions
  mentions_unionOf mentions_intrinsicOf)

mutual

/-- Every map and every `Record` in the node has keys that can be checked. -/
def TypeNode.keyed : TypeNode → Bool
  | .scalar _ => true
  | .model _ none => true
  | .model name (some ⟨key, value⟩) =>
    if name = "Array" then value.keyed
    else if name = "Record" then key ≠ .other && value.keyed
    else true
  | .enum _ => true
  | .union variants => keyedAll variants
  | .array element => element.keyed
  | .map key value => key ≠ .other && value.keyed
  | .object properties => keyedProperties properties
  | .literal _ => true
  | .intrinsic _ => true
  | .unrecognized => true

def keyedAll : List TypeNode → Bool
  | [] => true
  | t :: ts => t.keyed && keyedAll ts

def keyedProperties : List (PropertyOf TypeNode) → Bool
  | [] => true
  | ⟨_, type, _⟩ :: ps => type.keyed && keyedProperties ps

end

/-- The validator of the model drops no value. -/
def Model.keepsValues (m : Model) : Bool :=
  keyedProperties m.properties &&
    match m.indexer with
    | none => true
    | some ix => ix.value.keyed && (m.properties.isEmpty || ix.key ≠ .integer)

variable {scope : Scope}

namespace Schema

lemma mentions_recordOf {key : KeyKind} (h : key ≠ .other) (e : Expr) :
    (recordOf key e).mentions = e.mentions := by
  cases key <;> simp_all [recordOf, Expr.mentions]

lemma map_name_mentions_modelExpr (name : String) :
    (scope.modelExpr name).mentions.map Mention.name =
      if name ∈ scope.models then [name] else [] := by
  unfold Scope.modelExpr
  split_ifs <;> rfl

lemma map_name_mentions_enumExpr (name : String) :
    (scope.enumExpr name).mentions.map Mention.name =
      if name ∈ scope.enums then [name] else [] := by
  unfold Scope.enumExpr
  split_ifs <;> rfl

end Schema

open Schema

mutual

/-- Validators of nodes refer to what the node refers to, in the same order. -/
theorem TypeNode.map_name_mentions (t : TypeNode) (h : t.keyed) :
    (t.expr scope).mentions.map Mention.name = t.references scope := by
  cases t with
  | scalar s => simp [TypeNode.expr, TypeNode.references, mentions_scalar]
  | model name indexer =>
    cases indexer with
    | none => exact map_name_mentions_modelExpr name
    | some ix =>
      obtain ⟨key, value⟩ := ix
      rw [TypeNode.keyed] at h
      rw [TypeNode.expr_model, TypeNode.references_model]
      by_cases ha : name = "Array"
      · rw [if_pos ha] at h
        rw [if_pos ha, if_pos (Or.inl ha)]
        exact value.map_name_mentions h
      · by_cases hr : name = "Record"
        · obtain ⟨hkey, hvalue⟩ : key ≠ .other ∧ value.keyed = true := by simpa [hr] using h
          rw [if_neg ha, if_pos hr, if_pos (Or.inr hr), mentions_recordOf hkey]
          exact value.map_name_mentions hvalue
        · rw [if_neg ha, if_neg hr, if_neg (not_or.2 ⟨ha, hr⟩)]
          exact map_name_mentions_modelExpr name
  | enum name => exact map_name_mentions_enumExpr name
  | union variants =>
    rw [TypeNode.expr, mentions_unionOf]
    exact map_name_mentionsAll variants h
  | array element => exact element.map_name_mentions h
  | map key value =>
    obtain ⟨hkey, hvalue⟩ : key ≠ .other ∧ value.keyed = true := by
      simpa [TypeNode.keyed] using h
    rw [TypeNode.expr, mentions_recordOf hkey]
    exact value.map_name_mentions hvalue
  | object properties =>
    rw [TypeNode.expr, Expr.mentions, catchallMentions, List.append_nil]
    exact map_name_fieldMentions properties h
  | literal v => rfl
  | intrinsic name => simp [TypeNode.expr, TypeNode.references, mentions_intrinsicOf]
  | unrecognized => rfl

theorem map_name_mentionsAll (ts : List TypeNode) (h : keyedAll ts) :
    (mentionsAll (exprAll scope ts)).map Mention.name = referencesAll scope ts := by
  cases ts with
  | nil => rfl
  | cons t ts =>
    obtain ⟨ht, hts⟩ : t.keyed = true ∧ keyedAll ts = true := by simpa [keyedAll] using h
    rw [exprAll, mentionsAll, List.map_append, t.map_name_mentions ht,
      map_name_mentionsAll ts hts, referencesAll]

theorem map_name_fieldMentions (ps : List (PropertyOf TypeNode)) (h : keyedProperties ps) :
    (fieldMentions (propertyFields scope ps)).map Mention.name = propertyReferences scope ps := by
  cases ps with
  | nil => rfl
  | cons p ps =>
    obtain ⟨_, type, _⟩ := p
    obtain ⟨ht, hps⟩ : type.keyed = true ∧ keyedProperties ps = true := by
      simpa [keyedProperties] using h
    rw [propertyFields, fieldMentions, List.map_append, type.map_name_mentions ht,
      map_name_fieldMentions ps hps, propertyReferences]

end

namespace Model

/-- The names a model refers to, as often as it does. -/
def references (scope : Scope) (m : Model) : List String :=
  propertyReferences scope m.properties ++
    match m.indexer with
    | none => []
    | some ix => ix.value.references scope

/-- Validators of models that drop no value refer to what the model refers to, in the same
order. -/
theorem map_name_mentions {m : Model} (h : m.keepsValues) :
    (m.expr scope).mentions.map Mention.name = m.references scope := by
  obtain ⟨hprops, hix⟩ := Bool.and_eq_true_iff.1 h
  have hfields : (fieldMentions (propertyFields scope m.properties)).map Mention.name =
      propertyReferences scope m.properties := map_name_fieldMentions m.properties hprops
  rcases hindexer : m.indexer with _ | ⟨key, value⟩
  · simpa [Model.expr, references, hindexer, Expr.mentions, catchallMentions] using hfields
  · rw [hindexer] at hix
    obtain ⟨hvalue, hkey⟩ : value.keyed = true ∧ (m.properties = [] ∨ key ≠ .integer) := by
      simpa using hix
    have hnames : (value.expr scope).mentions.map Mention.name = value.references scope :=
      value.map_name_mentions hvalue
    rcases hps : m.properties with _ | ⟨p, ps⟩
    · -- the whole model is an array or a record
      cases key <;> simpa [Model.expr, references, hindexer, hps, propertyFields,
        propertyReferences, Expr.mentions] using hnames
    · have hcatchall : m.expr scope =
          .object (propertyFields scope m.properties) (some (value.expr scope)) := by
        rw [hps] at hkey
        unfold Model.expr
        rw [hindexer, hps]
        cases key <;> simp_all [propertyFields]
      rw [hcatchall, Expr.mentions, catchallMentions, List.map_append, hfields, hnames,
        references, hindexer]

lemma dependencies_eq (scope : Scope) (m : Model) :
    m.dependencies scope = (m.references scope).eraseDups.filter (· ≠ m.name) := rfl

/-- **Dependencies are references**: the validator of a model refers to the model itself and to
its dependencies only. Where it drops no value, the dependencies are the names it refers to, read
from left to right, each once and without the model itself. -/
theorem dependencies_mentioned (scope : Scope) (m : Model) :
    (∀ x ∈ (m.expr scope).mentions, x.name = m.name ∨ x.name ∈ m.dependencies scope) ∧
    (m.keepsValues → m.dependencies scope =
      ((m.expr scope).mentions.map Mention.name).eraseDups.filter (· ≠ m.name)) := by
  refine ⟨fun x hx => (Model.mention_expr hx).1, fun h => ?_⟩
  rw [map_name_mentions h, dependencies_eq]

/-- A model that refers to itself, to others more than once, and through every container. -/
def catalog : Model where
  name := "Catalog"
  properties := [
    ⟨"parent", .union [.model "Catalog" none, .enum "Kind"], true⟩,
    ⟨"items", .model "Array" (some ⟨.integer, .model "Item" none⟩), false⟩,
    ⟨"prices",
      .model "Record" (some ⟨.string, .object [⟨"of", .model "Item" none, false⟩]⟩), false⟩]
  indexer := some ⟨.other, .map .integer (.model "Tag" none)⟩

def catalogScope : Scope where
  models := ["Catalog", "Item", "Tag"]
  enums := ["Kind"]
  defined := ["Item"]

theorem dependencies_mentioned_catalog :
    catalog.keepsValues = true ∧
    (.deferred "Tag" ∈ (catalog.expr catalogScope).mentions ∧
      ("Tag" = catalog.name ∨ "Tag" ∈ catalog.dependencies catalogScope)) ∧
    catalog.dependencies catalogScope = ["Kind", "Item", "Tag"] ∧
    ((catalog.expr catalogScope).mentions.map Mention.name).eraseDups.filter (· ≠ catalog.name) =
      ["Kind", "Item", "Tag"] := by
  obtain ⟨honly, hall⟩ := dependencies_mentioned catalogScope catalog
  have hdeps : catalog.dependencies catalogScope = ["Kind", "Item", "Tag"] := by decide
  have htag : .deferred "Tag" ∈ (catalog.expr catalogScope).mentions := by decide
  exact ⟨by decide, ⟨htag, honly _ htag⟩, hdeps, (hall (by decide)).symm.trans hdeps⟩

/-- Under keys that cannot be checked a value is dropped, and the dependency is not referred to. -/
example :
    let m : Model := { name := "M", properties := [⟨"p", .map .other (.model "N" none), false⟩] }
    m.dependencies { models := ["N"] } = ["N"] ∧ (m.expr { models := ["N"] }).mentions = [] := by
  decide

end Model

end ZodGraph
