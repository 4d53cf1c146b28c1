import ZodGraph.Log.Pattern
import ZodGraph.Text

/-!
Directives of a log filter: a level, a target, or a target with a level. Behind the target there
may be brackets with a span and braces with a field, as in `target[span{field=value}]=level`.
-/

namespace ZodGraph.Log

/-- What a directive asks of a field: to be there, or to have a value that matches. -/
structure FieldTest where
  name : String
  hasValue : Bool := false
deriving DecidableEq

/-- A limit on the verbosity of events. -/
structure Directive where
  /-- What targets have to start with. -/
  target : Option String := none
  span : Option String := none
  field : Option FieldTest := none
  limit : Nat := 5
deriving DecidableEq

inductive DirectiveFault where
  | malformed
  | unknownLevel
  | badField (fault : PatternFault)
deriving DecidableEq

def DirectiveFault.message : DirectiveFault → String
  | malformed => "invalid filter directive"
  | unknownLevel =>
    "error parsing level filter: expected one of \"off\", \"error\", \"warn\", \"info\", "
      ++ "\"debug\", \"trace\", or a number 0-5"
  | badField fault => "invalid field filter: " ++ fault.message

/-! ### Levels -/

def lower (s : String) : String := String.ofList (s.toList.map Char.toLower)

/-- The number that digits stand for, with or without a plus sign. -/
def number? (s : String) : Option Nat :=
  let ds := match s.toList with
    | '+' :: cs => cs
    | cs => cs
  if ds.isEmpty || !ds.all Char.isDigit then none
  else some (ds.foldl (fun n d => 10 * n + (d.toNat - '0'.toNat)) 0)

/-- The verbosity that a name or a number from 0 to 5 stands for. -/
def limit? (s : String) : Option Nat :=
  match lower s with
  | "off" => some 0
  | "error" => some 1
  | "warn" => some 2
  | "info" => some 3
  | "debug" => some 4
  | "trace" => some 5
  | _ => (number? s).filter (· ≤ 5)

/-! ### Reading -/

/-- The characters from one place in bytes up to another. -/
def slice (s : String) (first last : Nat) : String :=
  let step (r : List Char × Nat) (c : Char) :=
    (if first ≤ r.2 ∧ r.2 < last then c :: r.1 else r.1, r.2 + c.utf8Size)
  String.ofList (s.toList.foldl step ([], 0)).1.reverse

/-- Where reading stands. The numbers are places at which something starts. -/
inductive Stage where
  | start
  /-- In a level or a target. -/
  | head (first : Nat)
  | span (first : Nat)
  | field (first : Nat)
  | afterField
  | afterSpan
  | level (first : Nat)
deriving DecidableEq

def startsTarget (c : Char) : Bool := c = '-' || c = ':' || c = '_' || Text.isAlphanumeric c

/-- A field, and behind an equals sign what its value has to match. -/
def FieldTest.parse (s : String) : Except DirectiveFault FieldTest :=
  if s.isEmpty then .error .malformed
  else match Text.split '=' s with
    | name :: value :: _ =>
      match valueFault? value with
      | some fault => .error (.badField fault)
      | none => .ok ⟨name, true⟩
    | _ => .ok ⟨s, false⟩

/-- Reads a character at a place. The places are counted from the first character that is no
blank, and yet what starts and ends at them is taken from the whole text. -/
def Directive.step (text : String) (state : Stage × Directive) (place : Nat) (c : Char) :
    Except DirectiveFault (Stage × Directive) :=
  let (stage, d) := state
  match stage with
  | .start =>
    if c = '[' then .ok (.span (place + 1), d)
    else if startsTarget c then .ok (.head place, d)
    else .error .malformed
  | .head first =>
    let named := { d with target := some (slice text first place) }
    if c = '=' then .ok (.level (place + 1), named)
    else if c = '[' then .ok (.span (place + 1), named)
    else .ok (stage, d)
  | .span first =>
    let name := slice text first place
    if c = ']' then .ok (.afterSpan, { d with span := some name })
    else if c = '\x7b' then
      .ok (.field (place + 1), { d with span := if name.isEmpty then none else some name })
    else .ok (stage, d)
  | .field first =>
    if c = '\x7d' then do
      return (.afterField, { d with field := some (← FieldTest.parse (slice text first place)) })
    else .ok (stage, d)
  | .afterField => if c = ']' then .ok (.afterSpan, d) else .error .malformed
  | .afterSpan => if c = '=' then .ok (.level (place + 1), d) else .error .malformed
  | .level _ => .ok (stage, d)

/-- What is read from all characters. A target alone sets no limit, and neither does an empty
level. -/
def Directive.finish (text : String) : Stage × Directive → Except DirectiveFault Directive
  | (.head first, d) =>
    let word := slice text first text.utf8ByteSize
    match limit? word with
    | some n => .ok { d with limit := n }
    | none => .ok { d with target := if word.isEmpty then none else some word }
  | (.level first, d) =>
    let word := slice text first text.utf8ByteSize
    if word.isEmpty then .ok d
    else match limit? word with
      | some n => .ok { d with limit := n }
      | none => .error .unknownLevel
  | (.afterSpan, d) => .ok d
  | _ => .error .malformed

def Directive.parse (text : String) : Except DirectiveFault Directive := do
  let step (state : (Stage × Directive) × Nat) (c : Char) := do
    return (← Directive.step text state.1 state.2 c, state.2 + c.utf8Size)
  let (state, _) ← (Text.trim text).toList.foldlM step ((.start, {}), 0)
  Directive.finish text state

end ZodGraph.Log
