import ZodGraph.Json.Source

/-!
Reading typed documents from a value. Entries of an object are taken in order and the first
fault is reported.
-/

namespace ZodGraph.Json

def FromValue (α : Type) := Json → Except Fault α

namespace FromValue

def text : FromValue String
  | .str s => .ok s
  | j => .error (.mismatch j .text)

def flag : FromValue Bool
  | .bool b => .ok b
  | j => .error (.mismatch j .flag)

def list {α : Type} (item : FromValue α) : FromValue (List α)
  | .arr xs => xs.mapM item
  | j => .error (.mismatch j .sequence)

def nullable {α : Type} (value : FromValue α) : FromValue (Option α)
  | .null => .ok none
  | j => (value j).map some

def choice {α : Type} (options : List (String × α)) : FromValue α
  | .str s => pick options s
  | .obj [(k, v)] => do
    let a ← pick options k
    match v with
    | .null => .ok a
    | v => .error (.mismatch v .unit)
  | j => .error (.mismatch j .variant)

variable {ρ : Type}

/-- The fields of a record in order. -/
def positional (title : String) (total : Nat) :
    List (Field FromValue ρ) → Nat → ρ → List Json → Except Fault ρ
  | [], index, r, rest =>
    if rest.isEmpty then .ok r else .error (.tooLong (index + rest.length) index)
  | fields, index, r, [] => finishShort title total index fields r
  | f :: fs, index, r, x :: xs => do
    let set ← f.put x
    positional title total fs (index + 1) (set r) xs

/-- One entry of a record. -/
def entry (fields : List (Field FromValue ρ)) (state : ρ × List String) (e : String × Json) :
    Except Fault (ρ × List String) :=
  match fields.find? (·.key = e.1) with
  | none => .ok state
  | some f =>
    if state.2.contains e.1 then .error (.duplicate e.1)
    else do
      let set ← f.put e.2
      return (set state.1, e.1 :: state.2)

def record (title : String) (blank : ρ) (fields : List (Field FromValue ρ)) : FromValue ρ
  | .arr xs => positional title fields.length fields 0 blank xs
  | .obj es => do
    let (r, seen) ← es.foldlM (entry fields) (blank, [])
    finish fields seen r
  | j => .error (.mismatch j (.record title))

/-- One entry of a tagged object: its kind, or another entry. -/
def tagEntry (key : String) (state : Option String × List (String × Json)) (e : String × Json) :
    Except Fault (Option String × List (String × Json)) :=
  if e.1 = key then
    match state.1, e.2 with
    | some _, _ => .error (.duplicate key)
    | none, .str tag => .ok (some tag, state.2)
    | none, j => .error (.mismatch j .variant)
  else .ok (state.1, e :: state.2)

def tagged {α : Type} (key title : String) (body : String → Json → Except Fault α) : FromValue α
  | .arr [] => .error (.missing key)
  | .arr (.str tag :: rest) => body tag (.arr rest)
  | .arr (j :: _) => .error (.mismatch j .variant)
  | .obj es => do
    let (tag, rest) ← es.foldlM (tagEntry key) (none, [])
    match tag with
    | none => .error (.missing key)
    | some tag => body tag (.obj rest.reverse)
  | j => .error (.mismatch j (.tagged title))

instance : Source FromValue where
  text := text
  flag := flag
  any := .ok
  list := list
  nullable := nullable
  choice := choice
  record := record
  tagged := tagged
  refine value f := fun j => value j >>= f

end FromValue

end ZodGraph.Json
