/-!
Names in generated source: constants, property keys, string literals and comments.
-/

namespace ZodGraph.Schema

/-- The constant that holds the schema of a declaration. -/
def identifier (name : String) : String := name ++ "Schema"

def isNameStart (c : Char) : Bool := c.isAlpha || c = '_' || c = '$'

def isNameChar (c : Char) : Bool := c.isAlphanum || c = '_' || c = '$'

/-- A key that is no plain ASCII name is written in quotes. -/
def needsQuotes (name : String) : Bool :=
  match name.toList with
  | [] => true
  | c :: cs => !isNameStart c || !cs.all isNameChar

/-- A character inside the quotes of a string literal. -/
def escapeChar : Char → List Char
  | '\\' => ['\\', '\\']
  | '"' => ['\\', '"']
  | '\n' => ['\\', 'n']
  | '\r' => ['\\', 'r']
  | c => [c]

def escape (s : String) : String := String.ofList (s.toList.flatMap escapeChar)

def stringLiteral (s : String) : String := "\"" ++ escape s ++ "\""

/-- A property key. -/
def key (name : String) : String := if needsQuotes name then stringLiteral name else name

/-- Splits every end of a block comment. -/
def guardComment : List Char → List Char
  | '*' :: '/' :: cs => '*' :: '\\' :: '/' :: guardComment cs
  | c :: cs => c :: guardComment cs
  | [] => []

/-- Text that cannot end a block comment. -/
def commentText (s : String) : String := String.ofList (guardComment s.toList)

end ZodGraph.Schema
