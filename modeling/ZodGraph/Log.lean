import ZodGraph.Text

/-!
Log events and their text.
-/

namespace ZodGraph.Log

inductive Level where
  | error
  | warn
  | info
  | debug
  | trace
deriving DecidableEq, Inhabited

/-- Higher for more talkative levels. -/
def Level.verbosity : Level → Nat
  | error => 1
  | warn => 2
  | info => 3
  | debug => 4
  | trace => 5

def Level.name : Level → String
  | error => "ERROR"
  | warn => "WARN"
  | info => "INFO"
  | debug => "DEBUG"
  | trace => "TRACE"

structure Field where
  name : String
  value : String
  /-- Written in quotes on a log line. -/
  quoted : Bool := false
deriving DecidableEq

structure Event where
  level : Level
  /-- The part of the program that speaks. -/
  target : String
  message : String
  fields : List Field := []
deriving DecidableEq

def Field.text (f : Field) : String :=
  f.name ++ "=" ++ if f.quoted then Text.quoted f.value else f.value

/-- The message with its fields. -/
def Event.body (e : Event) : String := " ".intercalate (e.message :: e.fields.map Field.text)

end ZodGraph.Log
