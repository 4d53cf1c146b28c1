import ZodGraph.Json.Error

/-!
What the readers of typed documents are written in terms of. A record is described once and read
from two places, straight from text or from a value already read; `Source` names the steps that
both places offer.
-/

namespace ZodGraph.Json

/-- A field of a record: how its value changes a record read so far. -/
structure Field (m : Type → Type) (ρ : Type) where
  key : String
  required : Bool
  put : m (ρ → ρ)

class Source (m : Type → Type) where
  text : m String
  flag : m Bool
  /-- Any value, kept as it stands. -/
  any : m Json
  list {α : Type} : m α → m (List α)
  /-- `null` stands for an absent value. -/
  nullable {α : Type} : m α → m (Option α)
  /-- One of some names, bare or as the only key of an object that holds `null`. -/
  choice {α : Type} (options : List (String × α)) : m α
  /-- An object with these keys and any others, or a list of the fields in order. Each field
  changes the blank record. -/
  record {ρ : Type} (title : String) (blank : ρ) (fields : List (Field m ρ)) : m ρ
  /-- An object with a key that names its kind, or a list that starts with it; what is left is
  read according to the kind. -/
  tagged {α : Type} (key title : String) (body : String → Json → Except Fault α) : m α
  refine {α β : Type} : m α → (α → Except Fault β) → m β

namespace Source

variable {m : Type → Type} [Source m] {α ρ : Type}

/-- A field that must be there. -/
def required (key : String) (value : m α) (set : α → ρ → ρ) : Field m ρ :=
  ⟨key, true, refine value fun a => .ok (set a)⟩

/-- A field that keeps the blank record's value when left out. -/
def defaulted (key : String) (value : m α) (set : α → ρ → ρ) : Field m ρ :=
  ⟨key, false, refine value fun a => .ok (set a)⟩

end Source

/-- The first required field among those that were not seen. -/
def firstMissing {m : Type → Type} {ρ : Type} (fields : List (Field m ρ)) (seen : List String) :
    Option String :=
  (fields.find? fun f => f.required && !seen.contains f.key).map (·.key)

/-- A record whose entries are all read. -/
def finish {m : Type → Type} {ρ : Type} (fields : List (Field m ρ)) (seen : List String)
    (record : ρ) : Except Fault ρ :=
  match firstMissing fields seen with
  | some key => .error (.missing key)
  | none => .ok record

/-- A list that ends before a required field is too short. -/
def finishShort {m : Type → Type} {ρ : Type} (title : String) (total : Nat)
    (index : Nat) (rest : List (Field m ρ)) (record : ρ) : Except Fault ρ :=
  match rest.findIdx? (·.required) with
  | some i => .error (.tooShort (index + i) title total)
  | none => .ok record

/-- Looks a name up among the options. -/
def pick {α : Type} (options : List (String × α)) (name : String) : Except Fault α :=
  match options.lookup name with
  | some a => .ok a
  | none => .error (.unknownChoice name (options.map (·.1)))

end ZodGraph.Json
