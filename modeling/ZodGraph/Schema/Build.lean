import ZodGraph.Scalar
import ZodGraph.Scope

/-!
Validators of nodes, models and enums. What cannot be checked precisely is not checked.
-/

namespace ZodGraph

open Schema (Expr Primitive Field)

namespace Schema

/-- A record with keys of the given kind; other keys leave the whole value unchecked. -/
def recordOf (key : KeyKind) (value : Expr) : Expr :=
  match key with
  | .string => .record (.primitive .string) value
  | .integer => .record (.primitive .number) value
  | .other => .unknown

/-- A union of one variant is that variant, and nothing is in the empty one. -/
def unionOf : List Expr → Expr
  | [] => .primitive .never
  | [e] => e
  | es => .union es

def intrinsicOf : String → Expr
  | "never" => .primitive .never
  | "null" => .primitive .null
  | "void" => .primitive .void
  | _ => .unknown

end Schema

/-- A model in scope by name, deferred until it is defined. -/
def Scope.modelExpr (scope : Scope) (name : String) : Expr :=
  if name ∈ scope.models then
    if name ∈ scope.defined then .ref name else .lazy name
  else .unknown

def Scope.enumExpr (scope : Scope) (name : String) : Expr :=
  if name ∈ scope.enums then .ref name else .unknown

mutual

def TypeNode.expr (scope : Scope) : TypeNode → Expr
  | .scalar s => s.expr
  | .model name none => scope.modelExpr name
  | .model name (some ⟨key, value⟩) =>
    match container? name (some ⟨key, value.expr scope⟩) with
    | some (.array element) => .array element
    | some (.record key value) => Schema.recordOf key value
    | none => scope.modelExpr name
  | .enum name => scope.enumExpr name
  | .union variants => Schema.unionOf (exprAll scope variants)
  | .array element => .array (element.expr scope)
  | .map key value => Schema.recordOf key (value.expr scope)
  | .object properties => .object (propertyFields scope properties) none
  | .literal v => .literal v
  | .intrinsic name => Schema.intrinsicOf name
  | .unrecognized => .unknown

def exprAll (scope : Scope) : List TypeNode → List Expr
  | [] => []
  | t :: ts => t.expr scope :: exprAll scope ts

def propertyFields (scope : Scope) : List (PropertyOf TypeNode) → List Field
  | [] => []
  | ⟨name, type, optional⟩ :: ps =>
    ⟨name, type.expr scope, optional⟩ :: propertyFields scope ps

end

/-- A container is checked as an array or as a record. -/
theorem TypeNode.expr_model (scope : Scope) (name : String) (key : KeyKind) (value : TypeNode) :
    (TypeNode.model name (some ⟨key, value⟩)).expr scope =
      if name = "Array" then .array (value.expr scope)
      else if name = "Record" then Schema.recordOf key (value.expr scope)
      else scope.modelExpr name := by
  simp only [TypeNode.expr, container?]
  by_cases ha : name = "Array"
  · simp [ha]
  · by_cases hr : name = "Record" <;> simp [ha, hr]

def PropertyOf.field (scope : Scope) (p : Property) : Field :=
  ⟨p.name, p.type.expr scope, p.optional⟩

theorem propertyFields_eq_map (scope : Scope) (ps : List Property) :
    propertyFields scope ps = ps.map (PropertyOf.field scope) := by
  induction ps with
  | nil => rfl
  | cons p ps ih => simp [propertyFields, ih, PropertyOf.field]

/-- An indexer beside properties checks the remaining keys, except that integer keys give way
to the properties. -/
def Model.expr (scope : Scope) (m : Model) : Expr :=
  let fields := propertyFields scope m.properties
  match m.indexer with
  | none => .object fields none
  | some ix =>
    let value := ix.value.expr scope
    match fields, ix.key with
    | [], .integer => .array value
    | [], _ => .record (.primitive .string) value
    | _, .integer => .object fields none
    | _, _ => .object fields (some value)

namespace Member

def isNumeric (m : Member) : Bool :=
  match m.value with
  | some (.int _) => true
  | some (.number _) => true
  | _ => false

/-- The text of a member that has no number. -/
def label (m : Member) : String :=
  match m.value with
  | some (.string s) => s
  | _ => m.name

def literal (m : Member) : Literal :=
  match m.value with
  | some (.int n) => .int n
  | some (.number x) => .number x
  | some (.string s) => .string s
  | none => .string m.name

end Member

/-- One number among the members makes all of them literals. -/
def Enumeration.expr (e : Enumeration) : Expr :=
  if e.members.isEmpty then .primitive .never
  else if e.members.any Member.isNumeric then
    Schema.unionOf (e.members.map fun m => .literal m.literal)
  else .enum (e.members.map Member.label)

end ZodGraph
