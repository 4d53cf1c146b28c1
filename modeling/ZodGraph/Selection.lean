import ZodGraph.Graph

/-!
Which declarations of a graph get a validator. A walk lists what the namespaces hold: a
namespace's models, then its enums, then its children. Each finding is then ruled on in order.
Models and enums share one set of names, and the first declaration that may have a validator
takes its name.
-/

namespace ZodGraph

/-- The declarations that get a validator, in the order of the walk. -/
structure Selection where
  models : List Model := []
  enums : List Enumeration := []
deriving Inhabited

def Selection.isEmpty (s : Selection) : Bool := s.models.isEmpty && s.enums.isEmpty

/-- Why a model gets no validator. -/
inductive Exclusion where
  | container
  | library
  | template
deriving DecidableEq

def Exclusion.reason : Exclusion → String
  | container => "intrinsic container"
  | library => "library declaration"
  | template => "unbound template parameters"

def Model.exclusion? (m : Model) : Option Exclusion :=
  if m.isContainer then some .container
  else if m.origin = .library then some .library
  else if m.isTemplate then some .template
  else none

/-- The dotted path of a namespace in its parent; an empty name adds nothing. -/
def qualify (parent name : String) : String :=
  if name.isEmpty then parent
  else if parent.isEmpty then name
  else parent ++ "." ++ name

/-- The namespace of the framework itself, which is left out with all below it. -/
def frameworkPath : String := "TypeSpec"

/-- Something met on the walk, with the path of its namespace. -/
inductive Finding where
  | framework (path : String)
  | model (path : String) (decl : Model)
  | enum (path : String) (decl : Enumeration)
  | malformed (path : String) (value : Json)

mutual

/-- What a namespace below the given path holds, itself before its children. -/
def Namespace.findings (parent : String) : Namespace → List Finding
  | ⟨name, entries, models, enums⟩ =>
    let path := qualify parent name
    if path = frameworkPath then [.framework path]
    else models.map (.model path) ++ enums.map (.enum path) ++ entryFindings path entries

def entryFindings (path : String) : List (EntryOf Namespace) → List Finding
  | [] => []
  | .child ns :: es => ns.findings path ++ entryFindings path es
  | .malformed v :: es => .malformed path v :: entryFindings path es

end

/-- What became of a finding. -/
inductive Ruling where
  | framework (path : String)
  | malformed (path : String) (value : Json)
  | excludedModel (path : String) (decl : Model) (why : Exclusion)
  | libraryEnum (path : String) (decl : Enumeration)
  /-- The name is taken. -/
  | duplicate (path name : String)
  | keptModel (decl : Model)
  | keptEnum (decl : Enumeration)

/-- Rules on one finding, given the names that are taken. -/
def Finding.rule (taken : List String) : Finding → Ruling
  | framework path => .framework path
  | malformed path v => .malformed path v
  | model path m =>
    match m.exclusion? with
    | some why => .excludedModel path m why
    | none => if m.name ∈ taken then .duplicate path m.name else .keptModel m
  | enum path e =>
    if e.origin = .library then .libraryEnum path e
    else if e.name ∈ taken then .duplicate path e.name else .keptEnum e

/-- The name a ruling takes. -/
def Ruling.takes : Ruling → List String
  | keptModel m => [m.name]
  | keptEnum e => [e.name]
  | _ => []

def rulings (taken : List String) : List Finding → List Ruling
  | [] => []
  | f :: fs =>
    let r := f.rule taken
    r :: rulings (r.takes ++ taken) fs

def Ruling.model? : Ruling → Option Model
  | keptModel m => some m
  | _ => none

def Ruling.enum? : Ruling → Option Enumeration
  | keptEnum e => some e
  | _ => none

def Selection.ofRulings (rs : List Ruling) : Selection where
  models := rs.filterMap Ruling.model?
  enums := rs.filterMap Ruling.enum?

def Namespace.rulings (root : Namespace) : List Ruling := ZodGraph.rulings [] (root.findings "")

def Namespace.selection (root : Namespace) : Selection := .ofRulings root.rulings

end ZodGraph
