import ZodGraph.Json

/-!
Type graphs: a tree of namespaces that declare models and enums, and the type nodes their
properties point at.
-/

namespace ZodGraph

/-- The kind of key of an indexer or a map. -/
inductive KeyKind where
  | string
  | integer
  | other
deriving DecidableEq, Inhabited

def KeyKind.ofName : String → KeyKind
  | "string" => string
  | "integer" => integer
  | _ => other

/-- The value of a literal type. -/
inductive Literal where
  | bool (b : Bool)
  | int (n : Int)
  | number (x : Double)
  | string (s : String)
deriving DecidableEq, Inhabited

/-- A scalar with the scalars it is derived from, the nearest first. -/
structure ScalarRef where
  name : String
  bases : List String := []
deriving DecidableEq, Inhabited

/-- The scalar that a scalar is derived from. -/
def ScalarRef.base? (s : ScalarRef) : Option ScalarRef :=
  match s.bases with
  | [] => none
  | b :: bs => some ⟨b, bs⟩

/-- The scalar at the root of the chain. -/
def ScalarRef.root (s : ScalarRef) : String := s.bases.getLastD s.name

structure PropertyOf (α : Type) where
  name : String
  type : α
  optional : Bool := false

/-- Key and value types of a map-like or array-like model. -/
structure IndexerOf (α : Type) where
  key : KeyKind
  value : α

inductive TypeNode where
  | scalar (ref : ScalarRef)
  /-- A model by name; instances of the generic containers carry an indexer. -/
  | model (name : String) (indexer : Option (IndexerOf TypeNode))
  | enum (name : String)
  | union (variants : List TypeNode)
  | array (element : TypeNode)
  | map (key : KeyKind) (value : TypeNode)
  | object (properties : List (PropertyOf TypeNode))
  | literal (value : Literal)
  | intrinsic (name : String)
  /-- A node of an unknown kind, or one that does not fit its kind. -/
  | unrecognized
deriving Inhabited

abbrev Property := PropertyOf TypeNode

abbrev Indexer := IndexerOf TypeNode

/-- What a generic container holds. -/
inductive ContainerOf (α : Type) where
  | array (element : α)
  | record (key : KeyKind) (value : α)

def ContainerOf.held {α : Type} : ContainerOf α → α
  | array element => element
  | record _ value => value

/-- The container that a model name with an indexer stands for, if it is one. What it holds may
be a type or what has been made of one. -/
def container? {α : Type} (name : String) (indexer : Option (IndexerOf α)) :
    Option (ContainerOf α) :=
  match indexer with
  | none => none
  | some ix =>
    if name = "Array" then some (.array ix.value)
    else if name = "Record" then some (.record ix.key ix.value)
    else none

theorem isSome_container?_iff {α : Type} {name : String} {indexer : Option (IndexerOf α)} :
    (container? name indexer).isSome ↔ indexer.isSome ∧ (name = "Array" ∨ name = "Record") := by
  unfold container?
  cases indexer with
  | none => simp
  | some ix =>
    by_cases ha : name = "Array"
    · simp [ha]
    · by_cases hr : name = "Record" <;> simp [ha, hr]

/-- Who wrote a declaration. -/
inductive Origin where
  | user
  | library
deriving DecidableEq, Inhabited

structure Model where
  name : String
  properties : List Property := []
  indexer : Option Indexer := none
  /-- Set on the generic containers. -/
  intrinsic : Bool := false
  /-- Template parameters not yet bound. -/
  templateParameters : List String := []
  origin : Origin := .user
deriving Inhabited

def Model.isContainer (m : Model) : Bool :=
  m.intrinsic || (container? m.name m.indexer).isSome

def Model.isTemplate (m : Model) : Bool := !m.templateParameters.isEmpty

/-- The explicit value of an enum member. -/
inductive MemberValue where
  | int (n : Int)
  | number (x : Double)
  | string (s : String)
deriving DecidableEq

structure Member where
  name : String
  value : Option MemberValue := none
deriving DecidableEq

structure Enumeration where
  name : String
  members : List Member := []
  origin : Origin := .user
deriving DecidableEq, Inhabited

/-- A place in a namespace's list of children; one that does not read as a namespace is kept
as it stands. -/
inductive EntryOf (α : Type) where
  | child (tree : α)
  | malformed (value : Json)

/-- A namespace; the global one has the empty name. -/
structure Namespace where
  name : String
  entries : List (EntryOf Namespace) := []
  models : List Model := []
  enums : List Enumeration := []
deriving Inhabited

abbrev Entry := EntryOf Namespace

end ZodGraph
