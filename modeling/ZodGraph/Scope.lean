import ZodGraph.Selection

/-!
The names that validators may refer to, and what a model refers to.
-/

namespace ZodGraph

/-- Names of the models and enums of a module, and of the models defined so far. -/
structure Scope where
  models : List String := []
  enums : List String := []
  defined : List String := []
deriving DecidableEq, Inhabited

/-- Nothing is defined yet. -/
def Selection.scope (s : Selection) : Scope where
  models := s.models.map Model.name
  enums := s.enums.map Enumeration.name

def Scope.define (scope : Scope) (name : String) : Scope :=
  { scope with defined := name :: scope.defined }

mutual

/-- The declarations in scope that a node refers to, as often as it does. -/
def TypeNode.references (scope : Scope) : TypeNode → List String
  | .scalar _ => []
  | .model name none => if name ∈ scope.models then [name] else []
  | .model name (some ⟨key, value⟩) =>
    match container? name (some ⟨key, value.references scope⟩) with
    | some c => c.held
    | none => if name ∈ scope.models then [name] else []
  | .enum name => if name ∈ scope.enums then [name] else []
  | .union variants => referencesAll scope variants
  | .array element => element.references scope
  | .map _ value => value.references scope
  | .object properties => propertyReferences scope properties
  | .literal _ => []
  | .intrinsic _ => []
  | .unrecognized => []

def referencesAll (scope : Scope) : List TypeNode → List String
  | [] => []
  | t :: ts => t.references scope ++ referencesAll scope ts

def propertyReferences (scope : Scope) : List (PropertyOf TypeNode) → List String
  | [] => []
  | ⟨_, type, _⟩ :: ps => type.references scope ++ propertyReferences scope ps

end

/-- A container refers to what it holds. -/
theorem TypeNode.references_model (scope : Scope) (name : String) (key : KeyKind)
    (value : TypeNode) :
    (TypeNode.model name (some ⟨key, value⟩)).references scope =
      if name = "Array" ∨ name = "Record" then value.references scope
      else if name ∈ scope.models then [name] else [] := by
  simp only [TypeNode.references, container?]
  by_cases ha : name = "Array"
  · simp [ha, ContainerOf.held]
  · by_cases hr : name = "Record" <;> simp [ha, hr, ContainerOf.held]

/-- What a model refers to, each name once, in order of first appearance and without itself. -/
def Model.dependencies (scope : Scope) (m : Model) : List String :=
  let indexed := match m.indexer with
    | none => []
    | some ix => ix.value.references scope
  (propertyReferences scope m.properties ++ indexed).eraseDups.filter (· ≠ m.name)

end ZodGraph
