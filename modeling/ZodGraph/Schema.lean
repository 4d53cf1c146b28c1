import ZodGraph.Graph

/-!
Validator expressions and the modules made of them.
-/

namespace ZodGraph.Schema

inductive Primitive where
  | string
  | number
  | boolean
  | date
  | unknown
  | never
  | null
  | void
deriving DecidableEq, Inhabited

structure FieldOf (α : Type) where
  name : String
  expr : α
  optional : Bool := false

inductive Expr where
  | primitive (p : Primitive)
  /-- A string that is a URL. -/
  | url
  | instanceOf (className : String)
  | literal (value : Literal)
  | enum (values : List String)
  /-- A schema defined above. -/
  | ref (name : String)
  /-- A schema looked up when a value is checked. -/
  | lazy (name : String)
  | array (element : Expr)
  | record (key value : Expr)
  | union (variants : List Expr)
  /-- The catchall checks the values of keys that are no field. -/
  | object (fields : List (FieldOf Expr)) (catchall : Option Expr)
deriving Inhabited

abbrev Field := FieldOf Expr

def Expr.unknown : Expr := .primitive .unknown

/-- An exported schema. -/
structure Definition where
  name : String
  expr : Expr
deriving Inhabited

structure Import where
  items : List String
  source : String
deriving DecidableEq

/-- Package data shown at the top of a module. -/
structure Metadata where
  packageName : Option String
  packageVersion : Option String
deriving DecidableEq

structure Module where
  imports : List Import
  metadata : Option Metadata
  enums : List Definition
  models : List Definition

/-- The definitions in the order of the text. -/
def Module.definitions (m : Module) : List Definition := m.enums ++ m.models

end ZodGraph.Schema
