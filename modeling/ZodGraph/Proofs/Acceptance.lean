import Mathlib.Data.List.Basic
import Mathlib.Tactic
import ZodGraph.Schema.Assembly

/-!
Which values a validator accepts, and which values a declaration describes. Both are read off the
syntax, given what every name accepts; a reading of a module, or of a selection, is a meaning of
names in which each accepts what its definition, or its declaration, accepts.
-/

namespace ZodGraph

/-- Values that validators are applied to. -/
inductive Datum where
  | undefined
  | null
  | boolean (b : Bool)
  | number (x : Double)
  | string (s : String)
  | array (items : List Datum)
  | object (entries : List (String × Datum))
  /-- An object of some class, such as a date or a blob. -/
  | foreign (className : String)

namespace Datum

/-- The value of a key; a missing one reads as undefined. -/
def get (entries : List (String × Datum)) (key : String) : Datum :=
  (entries.lookup key).getD .undefined

/-- An array of which every item passes. -/
def EachItem (p : Datum → Prop) (v : Datum) : Prop :=
  ∃ items, v = .array items ∧ ∀ x ∈ items, p x

/-- An object of which every key and every value passes. -/
def EachEntry (k : String → Prop) (p : Datum → Prop) (v : Datum) : Prop :=
  ∃ entries, v = .object entries ∧ ∀ e ∈ entries, k e.1 ∧ p e.2

/-- What stands at a key passes, or may be left out and is. -/
def Slot (optional : Bool) (p : Datum → Prop) (x : Datum) : Prop :=
  optional = true ∧ x = .undefined ∨ p x

end Datum

/-- The checks that are not made of other checks. -/
structure Checks where
  text : Datum → Prop
  number : Datum → Prop
  boolean : Datum → Prop
  date : Datum → Prop
  null : Datum → Prop
  void : Datum → Prop
  url : Datum → Prop
  instanceOf : String → Datum → Prop

/-- What every name accepts. -/
abbrev Meaning := String → Datum → Prop

def Literal.value : Literal → Datum
  | .bool b => .boolean b
  | .int n => .number (Double.ofInt n)
  | .number x => .number x
  | .string s => .string s

/-! ### Validators -/

namespace Schema

def Primitive.Accepts (c : Checks) : Primitive → Datum → Prop
  | .string, v => c.text v
  | .number, v => c.number v
  | .boolean, v => c.boolean v
  | .date, v => c.date v
  | .unknown, _ => True
  | .never, _ => False
  | .null, v => c.null v
  | .void, v => c.void v

mutual

/-- The values an expression accepts. -/
def Expr.Accepts (c : Checks) (ρ : Meaning) : Expr → Datum → Prop
  | .primitive p, v => p.Accepts c v
  | .url, v => c.url v
  | .instanceOf name, v => c.instanceOf name v
  | .literal l, v => v = l.value
  | .enum values, v => ∃ s ∈ values, v = .string s
  | .ref n, v => ρ n v
  | .lazy n, v => ρ n v
  | .array e, v => v.EachItem fun x => e.Accepts c ρ x
  | .record k e, v => v.EachEntry (fun key => k.Accepts c ρ (.string key)) fun x => e.Accepts c ρ x
  | .union es, v => AcceptsSome c ρ es v
  | .object fields catchall, v => ∃ entries, v = .object entries ∧
      AcceptsFields c ρ entries fields ∧
      AcceptsRest c ρ (entries.filter fun e => e.1 ∉ fields.map FieldOf.name) catchall

def AcceptsSome (c : Checks) (ρ : Meaning) : List Expr → Datum → Prop
  | [], _ => False
  | e :: es, v => e.Accepts c ρ v ∨ AcceptsSome c ρ es v

def AcceptsFields (c : Checks) (ρ : Meaning) (entries : List (String × Datum)) :
    List (FieldOf Expr) → Prop
  | [] => True
  | ⟨name, expr, optional⟩ :: fs =>
    (Datum.get entries name).Slot optional (fun x => expr.Accepts c ρ x) ∧
      AcceptsFields c ρ entries fs

/-- The entries that are no fields are not checked without a catchall. -/
def AcceptsRest (c : Checks) (ρ : Meaning) (rest : List (String × Datum)) :
    Option Expr → Prop
  | none => True
  | some e => ∀ p ∈ rest, e.Accepts c ρ p.2

end

/-- What the definition of a name accepts. -/
def Module.Accepts (c : Checks) (m : Module) (ρ : Meaning) (n : String) (v : Datum) : Prop :=
  ∃ d ∈ m.definitions, d.name = n ∧ d.expr.Accepts c ρ v

/-- Every name accepts what its definition accepts. -/
def Module.Reads (c : Checks) (m : Module) (ρ : Meaning) : Prop :=
  ∀ n v, ρ n v ↔ m.Accepts c ρ n v

end Schema

/-! ### Declarations -/

/-- The root of a chain is the scalar in it that is not derived from another. -/
inductive ScalarRef.HasRoot : ScalarRef → String → Prop
  | self {s : ScalarRef} : s.base? = none → HasRoot s s.name
  | base {s b : ScalarRef} {root : String} : s.base? = some b → HasRoot b root → HasRoot s root

/-- What the known roots describe. Durations travel as text. -/
def Checks.roots (c : Checks) : List (List String × (Datum → Prop)) :=
  [ (["string"], c.text),
    (["numeric", "integer", "float", "int8", "int16", "int32", "int64", "uint8", "uint16",
      "uint32", "uint64", "safeint", "float32", "float64", "decimal", "decimal128"], c.number),
    (["boolean"], c.boolean),
    (["plainDate", "plainTime", "utcDateTime", "offsetDateTime"], c.date),
    (["duration"], c.text),
    (["url"], c.url),
    (["bytes"], c.instanceOf "Blob") ]

/-- A scalar describes what its root does; one with an unknown root describes anything. -/
def ScalarRef.Accepts (c : Checks) (s : ScalarRef) (v : Datum) : Prop :=
  ∃ root, s.HasRoot root ∧ ∀ row ∈ c.roots, root ∈ row.1 → row.2 v

def intrinsicAccepts (c : Checks) (name : String) (v : Datum) : Prop :=
  match name with
  | "never" => False
  | "null" => c.null v
  | "void" => c.void v
  | _ => True

/-- A map by the kind of its keys; one with keys of another kind is anything. -/
def KeyKind.Map (c : Checks) (key : KeyKind) (p : Datum → Prop) (v : Datum) : Prop :=
  match key with
  | .string => v.EachEntry (fun k => c.text (.string k)) p
  | .integer => v.EachEntry (fun k => c.number (.string k)) p
  | .other => True

mutual

/-- The values a node describes. A name that is not declared describes anything. -/
def TypeNode.Accepts (c : Checks) (s : Selection) (ρ : Meaning) : TypeNode → Datum → Prop
  | .scalar r, v => r.Accepts c v
  | .model name none, v => name ∈ s.models.map Model.name → ρ name v
  | .model name (some ⟨key, value⟩), v =>
    if name = "Array" then v.EachItem fun x => value.Accepts c s ρ x
    else if name = "Record" then key.Map c (fun x => value.Accepts c s ρ x) v
    else name ∈ s.models.map Model.name → ρ name v
  | .enum name, v => name ∈ s.enums.map Enumeration.name → ρ name v
  | .union variants, v => DescribesSome c s ρ variants v
  | .array element, v => v.EachItem fun x => element.Accepts c s ρ x
  | .map key value, v => key.Map c (fun x => value.Accepts c s ρ x) v
  | .object properties, v => ∃ entries, v = .object entries ∧
      HasProperties c s ρ entries properties
  | .literal l, v => v = l.value
  | .intrinsic name, v => intrinsicAccepts c name v
  | .unrecognized, _ => True

def DescribesSome (c : Checks) (s : Selection) (ρ : Meaning) : List TypeNode → Datum → Prop
  | [], _ => False
  | t :: ts, v => t.Accepts c s ρ v ∨ DescribesSome c s ρ ts v

def HasProperties (c : Checks) (s : Selection) (ρ : Meaning) (entries : List (String × Datum)) :
    List (PropertyOf TypeNode) → Prop
  | [] => True
  | ⟨name, type, optional⟩ :: ps =>
    (Datum.get entries name).Slot optional (fun x => type.Accepts c s ρ x) ∧
      HasProperties c s ρ entries ps

end

/-- An indexer alone makes an array or a record. Beside properties it describes the other
entries, unless its keys are integers. -/
def Model.Accepts (c : Checks) (s : Selection) (ρ : Meaning) (m : Model) (v : Datum) : Prop :=
  match m.properties, m.indexer with
  | [], some ⟨.integer, value⟩ => v.EachItem fun x => value.Accepts c s ρ x
  | [], some ⟨_, value⟩ => v.EachEntry (fun k => c.text (.string k)) fun x => value.Accepts c s ρ x
  | properties, indexer => ∃ entries, v = .object entries ∧
      HasProperties c s ρ entries properties ∧
      ∀ ix, indexer = some ix → ix.key ≠ .integer →
        ∀ e ∈ entries, e.1 ∉ properties.map PropertyOf.name → ix.value.Accepts c s ρ e.2

/-- The explicit value of a member, or else its name. -/
def Member.effective (m : Member) : Datum :=
  match m.value with
  | some (.int n) => .number (Double.ofInt n)
  | some (.number x) => .number x
  | some (.string s) => .string s
  | none => .string m.name

def Enumeration.Accepts (e : Enumeration) (v : Datum) : Prop := ∃ m ∈ e.members, v = m.effective

/-- What the declaration of a name describes. -/
def Selection.Accepts (c : Checks) (s : Selection) (ρ : Meaning) (n : String) (v : Datum) : Prop :=
  (∃ m ∈ s.models, m.name = n ∧ m.Accepts c s ρ v) ∨ ∃ e ∈ s.enums, e.name = n ∧ e.Accepts v

/-- Every name accepts what its declaration describes. -/
def Selection.Reads (c : Checks) (s : Selection) (ρ : Meaning) : Prop :=
  ∀ n v, ρ n v ↔ s.Accepts c ρ n v

end ZodGraph
