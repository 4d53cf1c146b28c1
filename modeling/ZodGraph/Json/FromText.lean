import ZodGraph.Json.Source
import ZodGraph.Json.Text

/-!
Reading typed documents straight from text. What is wrong first, in the order of the text, is
reported, be it the text or a shape; keys without a field are passed over.
-/

namespace ZodGraph.Json

/-- Reads with a number of brackets that may still be opened. -/
def FromText (α : Type) := Nat → Scan α

namespace FromText

def liftFault {α : Type} (r : Except Fault α) : Except ReadError α :=
  r.mapError .shape

/-- A value that is not a list or object. -/
def atom {α : Type} (want : Expected) (pick : Json → Option α) : FromText α := fun _ cs => do
  let (j, r) ← head cs
  match pick j with
  | some a => return (a, r)
  | none => throw (.shape (.mismatch j want))

/-- A string where the given thing is wanted. -/
def string (want : Expected) : FromText String :=
  atom want fun
    | .str s => some s
    | _ => none

def flag : FromText Bool :=
  atom .flag fun
    | .bool b => some b
    | _ => none

/-- Runs a reader inside one more bracket. -/
def nested {α : Type} (depth : Nat) (body : Nat → Except ReadError α) : Except ReadError α :=
  match depth with
  | 0 => .error (.text .recursionLimit)
  | depth + 1 => body depth

/-- The value in front is not what is wanted. -/
def refuse {α : Type} (want : Expected) (cs : List Char) : Except ReadError α := do
  let (j, _) ← head cs
  throw (.shape (.mismatch j want))

def list {α : Type} (item : FromText α) : FromText (List α) := fun depth cs =>
  match skipBlanks cs with
  | '[' :: r => nested depth fun d => items (item d) r true r
  | r => refuse .sequence r

def nullable {α : Type} (value : FromText α) : FromText (Option α) := fun depth cs =>
  match skipBlanks cs with
  | 'n' :: r => do
    let r ← liftText (word "ull".toList r)
    return (none, r)
  | r => do
    let (a, r) ← value depth r
    return (some a, r)

/-- `null` and nothing else. -/
def unit : FromText Unit :=
  atom .unit fun
    | .null => some ()
    | _ => none

/-- A name whose opening quote is read. -/
def chosen {α : Type} (options : List (String × α)) : Scan α := fun cs => do
  let (s, r) ← liftText (Json.string cs)
  let a ← liftFault (pick options (String.ofList s))
  return (a, r)

/-- The only key of an object whose bracket is read. -/
def chosenKey {α : Type} (options : List (String × α)) : Scan α := fun cs =>
  match skipBlanks cs with
  | [] => .error (.text .eofObject)
  | '"' :: r => chosen options r
  | '}' :: _ => .error (.text .expectedValue)
  | _ => .error (.text .keyNotString)

def choice {α : Type} (options : List (String × α)) : FromText α := fun depth cs =>
  match skipBlanks cs with
  | [] => .error (.text .eofValue)
  | '"' :: r => chosen options r
  | '{' :: r => nested depth fun d => do
    let (a, r) ← chosenKey options r
    let r ← liftText (colon r)
    let (_, r) ← unit d r
    match skipBlanks r with
    | '}' :: r => return (a, r)
    | [] => throw (.text .eofObject)
    | _ => throw (.text .expectedValue)
  | _ => .error (.text .expectedValue)

variable {ρ : Type}

/-- The fields of a record in order. -/
def positional (title : String) (total depth : Nat) :
    List (Field FromText ρ) → Nat → ρ → Scan ρ
  | [], _, acc, cs => do
    let r ← liftText (endList cs)
    return (acc, r)
  | f :: fs, index, acc, cs => do
    match ← liftText (nextItem (index = 0) cs) with
    | .done r =>
      let acc ← liftFault (finishShort title total index (f :: fs) acc)
      return (acc, r)
    | .more r =>
      let (set, r) ← f.put depth r
      positional title total depth fs (index + 1) (set acc) r

/-- One entry of a record. -/
def entry (fields : List (Field FromText ρ)) (depth : Nat) (state : ρ × List String)
    (key : String) : Scan (ρ × List String) := fun cs =>
  match fields.find? (·.key = key) with
  | none => do
    let r ← liftText (colon cs)
    let r ← skipValue r
    return (state, r)
  | some f =>
    if state.2.contains key then .error (.shape (.duplicate key))
    else do
      let r ← liftText (colon cs)
      let (set, r) ← f.put depth r
      return ((set state.1, key :: state.2), r)

def record (title : String) (blank : ρ) (fields : List (Field FromText ρ)) : FromText ρ :=
  fun depth cs =>
    match skipBlanks cs with
    | '[' :: r => nested depth fun d => positional title fields.length d fields 0 blank r
    | '{' :: r => nested depth fun d => do
      let ((acc, seen), r) ← foldEntries (entry fields d) r true (blank, []) r
      let acc ← liftFault (finish fields seen acc)
      return (acc, r)
    | r => refuse (.record title) r

/-- One entry of a tagged object: its kind, or another entry. -/
def tagEntry (key : String) (depth : Nat) (state : Option String × List (String × Json))
    (k : String) : Scan (Option String × List (String × Json)) := fun cs => do
  if k = key then
    if state.1.isSome then throw (.shape (.duplicate key))
    let r ← liftText (colon cs)
    let (tag, r) ← string .variant depth r
    return ((some tag, state.2), r)
  else
    let r ← liftText (colon cs)
    let (v, r) ← value depth r
    return ((state.1, (k, v) :: state.2), r)

/-- The kind at the front of a list, and the items after it. -/
def taggedList (key : String) (depth : Nat) : Scan (String × List Json) := fun cs => do
  match ← liftText (nextItem true cs) with
  | .done _ => throw (.shape (.missing key))
  | .more r =>
    let (tag, r) ← string .variant depth r
    let (rest, r) ← items (value depth) r false r
    return ((tag, rest), r)

def tagged {α : Type} (key title : String) (body : String → Json → Except Fault α) : FromText α :=
  fun depth cs =>
    match skipBlanks cs with
    | '[' :: r => nested depth fun d => do
      let ((tag, rest), r) ← taggedList key d r
      let a ← liftFault (body tag (.arr rest))
      return (a, r)
    | '{' :: r => nested depth fun d => do
      let ((tag, rest), r) ← foldEntries (tagEntry key d) r true (none, []) r
      match tag with
      | none => throw (.shape (.missing key))
      | some tag =>
        let a ← liftFault (body tag (.obj rest.reverse))
        return (a, r)
    | r => refuse (.tagged title) r

instance : Source FromText where
  text := string .text
  flag := flag
  any := value
  list := list
  nullable := nullable
  choice := choice
  record := record
  tagged := tagged
  refine value f := fun depth cs => do
    let (a, r) ← value depth cs
    let b ← liftFault (f a)
    return (b, r)

/-- How many brackets a document may have open at once. -/
def depthLimit : Nat := 127

/-- Reads a whole text. -/
def run {α : Type} (reader : FromText α) (text : String) : Except ReadError α := do
  let (a, r) ← reader depthLimit text.toList
  liftText (endText r)
  return a

end FromText

end ZodGraph.Json
