import ZodGraph.Schema

/-!
Scalars by family. The root of a scalar's chain decides the family, and the family the validator.
-/

namespace ZodGraph

inductive ScalarFamily where
  | string
  | number
  | boolean
  | date
  | duration
  | url
  | bytes
deriving DecidableEq, Inhabited

namespace ScalarFamily

def numberNames : List String :=
  ["numeric", "integer", "float", "int8", "int16", "int32", "int64", "uint8", "uint16", "uint32",
    "uint64", "safeint", "float32", "float64", "decimal", "decimal128"]

def dateNames : List String := ["plainDate", "plainTime", "utcDateTime", "offsetDateTime"]

/-- The family of a root scalar. -/
def ofName? (name : String) : Option ScalarFamily :=
  if name ∈ numberNames then some number
  else if name ∈ dateNames then some date
  else match name with
    | "string" => some string
    | "boolean" => some boolean
    | "duration" => some duration
    | "url" => some url
    | "bytes" => some bytes
    | _ => none

/-- Durations travel as text. -/
def expr : ScalarFamily → Schema.Expr
  | string => .primitive .string
  | number => .primitive .number
  | boolean => .primitive .boolean
  | date => .primitive .date
  | duration => .primitive .string
  | url => .url
  | bytes => .instanceOf "Blob"

end ScalarFamily

/-- The validator of a scalar; an unknown root is not checked. -/
def ScalarRef.expr (s : ScalarRef) : Schema.Expr :=
  match ScalarFamily.ofName? s.root with
  | some f => f.expr
  | none => .unknown

end ZodGraph
