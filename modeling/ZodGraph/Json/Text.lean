import ZodGraph.Json.Lexeme

/-!
Lists, objects and whole values in JSON text. A loop over the parts of a list or object is
bounded by the text it starts on: every part takes at least one character, so the bound runs
out only where the text does.
-/

namespace ZodGraph.Json

/-- What comes next in a list or object: another part, or the end with what follows it. -/
inductive Next where
  | more (rest : List Char)
  | done (rest : List Char)

def nextItem (first : Bool) (cs : List Char) : Except TextError Next :=
  match skipBlanks cs with
  | [] => .error .eofList
  | ']' :: r => .ok (.done r)
  | c :: r =>
    if first then .ok (.more (c :: r))
    else if c = ',' then
      match skipBlanks r with
      | [] => .error .eofValue
      | ']' :: _ => .error .trailingComma
      | r => .ok (.more r)
    else .error .expectedListEnd

/-- A key gives the rest after its opening quote. -/
def nextKey (first : Bool) (cs : List Char) : Except TextError Next :=
  match skipBlanks cs with
  | [] => .error .eofObject
  | '}' :: r => .ok (.done r)
  | c :: r =>
    if first then if c = '"' then .ok (.more r) else .error .keyNotString
    else if c = ',' then
      match skipBlanks r with
      | [] => .error .eofValue
      | '"' :: r => .ok (.more r)
      | '}' :: _ => .error .trailingComma
      | _ => .error .keyNotString
    else .error .expectedObjectEnd

def colon (cs : List Char) : Except TextError (List Char) :=
  match skipBlanks cs with
  | ':' :: r => .ok r
  | [] => .error .eofObject
  | _ => .error .expectedColon

/-- The end of a list whose last wanted item is read. -/
def endList (cs : List Char) : Except TextError (List Char) :=
  match skipBlanks cs with
  | ']' :: r => .ok r
  | ',' :: r =>
    match skipBlanks r with
    | ']' :: _ => .error .trailingComma
    | _ => .error .trailingCharacters
  | [] => .error .eofList
  | _ => .error .trailingCharacters

/-- The end of the whole text. -/
def endText (cs : List Char) : Except TextError Unit :=
  match skipBlanks cs with
  | [] => .ok ()
  | _ => .error .trailingCharacters

/-- Reads from the front of a text. -/
abbrev Scan (α : Type) := List Char → Except ReadError (α × List Char)

def liftText {α : Type} (r : Except TextError α) : Except ReadError α :=
  r.mapError .text

/-- The items of a list whose bracket is read. -/
def items {α : Type} (item : Scan α) : List Char → Bool → Scan (List α)
  | [], _, _ => .error (.text .eofList)
  | _ :: bound, first, cs => do
    match ← liftText (nextItem first cs) with
    | .done r => return ([], r)
    | .more r =>
      let (x, r) ← item r
      let (xs, r) ← items item bound false r
      return (x :: xs, r)

/-- The entries of an object whose bracket is read, folded from the left. -/
def foldEntries {σ : Type} (entry : σ → String → Scan σ) : List Char → Bool → σ → Scan σ
  | [], _, _, _ => .error (.text .eofObject)
  | _ :: bound, first, acc, cs => do
    match ← liftText (nextKey first cs) with
    | .done r => return (acc, r)
    | .more r =>
      let (k, r) ← liftText (string r)
      let (acc, r) ← entry acc (String.ofList k) r
      foldEntries entry bound false acc r

/-- A value whose brackets are left to the given readers. -/
def valueWith (list object : Scan Json) : Scan Json := fun cs =>
  match skipBlanks cs with
  | [] => .error (.text .eofValue)
  | 'n' :: r => liftText ((word "ull".toList r).map fun r => (null, r))
  | 't' :: r => liftText ((word "rue".toList r).map fun r => (bool true, r))
  | 'f' :: r => liftText ((word "alse".toList r).map fun r => (bool false, r))
  | '-' :: r => liftText (number true r)
  | '"' :: r => liftText ((string r).map fun (s, r) => (str (String.ofList s), r))
  | '[' :: r => list r
  | '{' :: r => object r
  | c :: r =>
    if isDigit c then liftText (number false (c :: r)) else .error (.text .expectedValue)

/-- A value with at most `depth` brackets open at once. -/
def value : Nat → Scan Json
  | 0 =>
    let refuse : Scan Json := fun _ => .error (.text .recursionLimit)
    valueWith refuse refuse
  | depth + 1 =>
    valueWith
      (fun r => do
        let (xs, r) ← items (value depth) r true r
        return (arr xs, r))
      (fun r => do
        let entry (es : List (String × Json)) (k : String) : Scan (List (String × Json)) :=
          fun r => do
            let r ← liftText (colon r)
            let (v, r) ← value depth r
            return ((k, v) :: es, r)
        let (es, r) ← foldEntries entry r true [] r
        return (obj es.reverse, r))

/-- The front of a value: a list or object is not entered. -/
def head : Scan Json := valueWith (fun r => .ok (arr [], r)) (fun r => .ok (obj [], r))

/-- Passes over the items of a list whose bracket is read; an item must follow a comma. -/
def skipItems (skip : List Char → Except TextError (List Char)) :
    List Char → Bool → List Char → Except TextError (List Char)
  | [], _, _ => .error .eofList
  | _ :: bound, first, cs => do
    match skipBlanks cs with
    | [] => throw .eofList
    | ']' :: r => return r
    | c :: r =>
      if first then skipItems skip bound false (← skip (c :: r))
      else if c = ',' then skipItems skip bound false (← skip r)
      else throw .expectedListEnd

/-- Passes over a key with its colon. -/
def skipKey (cs : List Char) : Except TextError (List Char) := do
  match skipBlanks cs with
  | [] => throw .eofObject
  | '"' :: r => colon (← skipString r)
  | _ => throw .keyNotString

/-- Passes over the entries of an object whose bracket is read; a key must follow a comma. -/
def skipEntries (skip : List Char → Except TextError (List Char)) :
    List Char → Bool → List Char → Except TextError (List Char)
  | [], _, _ => .error .eofObject
  | _ :: bound, first, cs => do
    match skipBlanks cs with
    | [] => throw .eofObject
    | '}' :: r => return r
    | c :: r =>
      if first then skipEntries skip bound false (← skip (← skipKey (c :: r)))
      else if c = ',' then skipEntries skip bound false (← skip (← skipKey r))
      else throw .expectedObjectEnd

/-- Passes over a value. There is no limit on its depth but the text itself, and its numbers and
strings are checked for form only. -/
def skip : List Char → List Char → Except TextError (List Char)
  | [], _ => .error .eofValue
  | _ :: bound, cs =>
    match skipBlanks cs with
    | [] => .error .eofValue
    | 'n' :: r => word "ull".toList r
    | 't' :: r => word "rue".toList r
    | 'f' :: r => word "alse".toList r
    | '-' :: r => skipNumber r
    | '"' :: r => skipString r
    | '[' :: r => skipItems (skip bound) r true r
    | '{' :: r => skipEntries (skip bound) r true r
    | c :: r => if isDigit c then skipNumber (c :: r) else .error .expectedValue

/-- Passes over the value in front of a text. -/
def skipValue (cs : List Char) : Except ReadError (List Char) := liftText (skip cs cs)

end ZodGraph.Json
