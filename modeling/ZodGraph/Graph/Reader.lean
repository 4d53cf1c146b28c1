import ZodGraph.Graph
import ZodGraph.Json.FromText
import ZodGraph.Json.FromValue

/-!
Reading type graphs. Nodes sit in lenient slots: a slot takes any value, and one that is no
node is unrecognized. The same goes for the children of a namespace, which stay malformed.
Nodes, scalar chains and namespaces nest, and the depth of a value bounds how far.
-/

namespace ZodGraph

open Json (Source FromText FromValue Fault ReadError)
open Json.Source

variable {m : Type → Type} [Source m]

namespace Literal

/-- Whole numbers past 63 bits are doubles. -/
def ofJson : Json → Except Fault Literal
  | .bool b => .ok (.bool b)
  | .int n => .ok (if n ≤ Json.maxInt then .int n else .number (.ofInt n))
  | .num x => .ok (.number x)
  | .str s => .ok (.string s)
  | _ => .error (.noAlternative "LiteralValue")

end Literal

def MemberValue.ofJson : Json → Except Fault MemberValue
  | .int n => .ok (if n ≤ Json.maxInt then .int n else .number (.ofInt n))
  | .num x => .ok (.number x)
  | .str s => .ok (.string s)
  | _ => .error (.noAlternative "EnumValue")

def KeyKind.reader : m KeyKind := refine text fun s => .ok (.ofName s)

def Origin.reader : m Origin := choice [("user", .user), ("library", .library)]

namespace ScalarRef

/-- The fields of a scalar whose base is read by the given reader. -/
def fields (chain : FromValue ScalarRef) : List (Json.Field FromValue ScalarRef) :=
  [ required "name" text fun v r => { r with name := v },
    defaulted "base" (nullable chain) fun v r =>
      { r with bases := v.elim [] fun b => b.name :: b.bases } ]

/-- A chain of at most `n` scalars. -/
def ofJsonAt : Nat → FromValue ScalarRef
  | 0 => fun j => .error (.mismatch j (.record "struct ScalarRef"))
  | n + 1 => record "struct ScalarRef" { name := "" } (fields (ofJsonAt n))

def ofJson (j : Json) : Except Fault ScalarRef := ofJsonAt j.depth j

end ScalarRef

namespace TypeNode

/-- A slot that takes any value, and a node as the given reader has it. -/
def slot (node : FromValue TypeNode) : m TypeNode :=
  refine any fun j => .ok ((node j.collapse).toOption.getD .unrecognized)

end TypeNode

/-- A property whose type is read by the given reader. -/
def PropertyOf.reader (node : FromValue TypeNode) : m Property :=
  record "struct Property" { name := "", type := .unrecognized }
    [ required "name" text fun v r => { r with name := v },
      defaulted "type" (TypeNode.slot node) fun v r => { r with type := v },
      defaulted "optional" flag fun v r => { r with optional := v } ]

/-- The fields of a key type and a value type, which is read by the given reader. -/
def IndexerOf.fields (node : FromValue TypeNode) : List (Json.Field m Indexer) :=
  [ required "key" KeyKind.reader fun v r => { r with key := v },
    required "value" (TypeNode.slot node) fun v r => { r with value := v } ]

def IndexerOf.reader (node : FromValue TypeNode) : m Indexer :=
  record "struct Indexer" ⟨.other, .unrecognized⟩ (fields node)

namespace TypeNode

section Kinds

variable (node : FromValue TypeNode)

def modelFields : FromValue (String × Option Indexer) :=
  record "struct ModelRef" ("", none)
    [ required "name" text fun v r => (v, r.2),
      defaulted "indexer" (nullable (IndexerOf.reader node)) fun v r => (r.1, v) ]

def enumFields : FromValue String :=
  record "struct EnumRef" "" [required "name" text fun v _ => v]

def unionFields : FromValue (List TypeNode) :=
  record "struct variant TypeNode::Union" []
    [defaulted "variants" (list (slot node)) fun v _ => v]

def arrayFields : FromValue TypeNode :=
  record "struct variant TypeNode::Array" .unrecognized
    [required "element" (slot node) fun v _ => v]

def mapFields : FromValue Indexer :=
  record "struct variant TypeNode::Map" ⟨.other, .unrecognized⟩ (IndexerOf.fields node)

def objectFields : FromValue (List Property) :=
  record "struct variant TypeNode::Object" []
    [defaulted "properties" (list (PropertyOf.reader node)) fun v _ => v]

def literalFields : FromValue Literal :=
  record "struct variant TypeNode::Literal" (.bool false)
    [required "value" (refine any Literal.ofJson) fun v _ => v]

def intrinsicFields : FromValue String :=
  record "struct variant TypeNode::Intrinsic" "" [required "name" text fun v _ => v]

/-- What is left of a node once its kind is known; nested nodes are read by the given reader. -/
def ofKind (kind : String) (body : Json) : Except Fault TypeNode :=
  match kind with
  | "scalar" => (ScalarRef.ofJson body).map .scalar
  | "model" => do
    let (name, indexer) ← modelFields node body
    return .model name indexer
  | "enum" => return .enum (← enumFields body)
  | "union" => return .union (← unionFields node body)
  | "array" => return .array (← arrayFields node body)
  | "map" => do
    let ix ← mapFields node body
    return .map ix.key ix.value
  | "object" => return .object (← objectFields node body)
  | "literal" => return .literal (← literalFields body)
  | "intrinsic" => return .intrinsic (← intrinsicFields body)
  | _ =>
    match body with
    | .arr (x :: xs) => .error (.tooLong (x :: xs).length 0)
    | _ => .ok .unrecognized

end Kinds

/-- A node of at most `n` levels. -/
def ofJsonAt : Nat → FromValue TypeNode
  | 0 => fun j => .error (.mismatch j (.tagged "TypeNode"))
  | n + 1 => tagged "kind" "TypeNode" (ofKind (ofJsonAt n))

/-- The node a value is, read strictly at the top. -/
def ofJson (j : Json) : Except Fault TypeNode := ofJsonAt j.depth j

def reader : m TypeNode :=
  tagged "kind" "TypeNode" fun kind body => ofKind (ofJsonAt body.depth) kind body

end TypeNode

def Property.reader : m Property := PropertyOf.reader TypeNode.ofJson

def Model.reader : m Model :=
  record "struct ModelDecl" { name := "" }
    [ required "name" text fun v r => { r with name := v },
      defaulted "properties" (list Property.reader) fun v r => { r with properties := v },
      defaulted "indexer" (nullable (IndexerOf.reader TypeNode.ofJson)) fun v r =>
        { r with indexer := v },
      defaulted "intrinsic" flag fun v r => { r with intrinsic := v },
      defaulted "templateParameters" (list text) fun v r => { r with templateParameters := v },
      defaulted "origin" Origin.reader fun v r => { r with origin := v } ]

def Member.reader : m Member :=
  record "struct EnumMember" { name := "" }
    [ required "name" text fun v r => { r with name := v },
      defaulted "value" (nullable (refine any MemberValue.ofJson)) fun v r =>
        { r with value := v } ]

def Enumeration.reader : m Enumeration :=
  record "struct EnumDecl" { name := "" }
    [ required "name" text fun v r => { r with name := v },
      defaulted "members" (list Member.reader) fun v r => { r with members := v },
      defaulted "origin" Origin.reader fun v r => { r with origin := v } ]

namespace Namespace

/-- A namespace whose children are made by the given function. -/
def readerWith (entry : Json → Entry) : m Namespace :=
  record "struct Namespace" { name := "" }
    [ required "name" text fun v r => { r with name := v },
      defaulted "namespaces" (list (refine any fun j => .ok (entry j))) fun v r =>
        { r with entries := v },
      defaulted "models" (list Model.reader) fun v r => { r with models := v },
      defaulted "enums" (list Enumeration.reader) fun v r => { r with enums := v } ]

/-- The entry a value makes, given what reads as a namespace. -/
def entryOf (tree : FromValue Namespace) (j : Json) : Entry :=
  match tree j with
  | .ok ns => .child ns
  | .error _ => .malformed j.collapse

/-- A namespace of at most `n` levels. -/
def ofJsonAt : Nat → FromValue Namespace
  | 0 => fun j => .error (.mismatch j (.record "struct Namespace"))
  | n + 1 => readerWith (entryOf (ofJsonAt n))

def ofJson (j : Json) : Except Fault Namespace := ofJsonAt j.depth j

def reader : m Namespace := readerWith (entryOf ofJson)

/-- Reads the text of a type graph. -/
def parse (text : String) : Except ReadError Namespace := FromText.run reader text

end Namespace

end ZodGraph
