import ZodGraph.Double.Text
import ZodGraph.Json
import ZodGraph.Text

/-!
What can be wrong with a document: its text, or the shape of a value in it.
-/

namespace ZodGraph.Json

/-- A fault of the text itself. -/
inductive TextError where
  | eofValue
  | eofList
  | eofObject
  | eofString
  | expectedValue
  | expectedIdent
  | expectedColon
  | expectedListEnd
  | expectedObjectEnd
  | trailingComma
  | trailingCharacters
  | keyNotString
  | invalidNumber
  | numberOutOfRange
  | invalidEscape
  | endOfHexEscape
  | loneSurrogate
  | controlCharacter
  | recursionLimit
deriving DecidableEq

def TextError.message : TextError → String
  | eofValue => "EOF while parsing a value"
  | eofList => "EOF while parsing a list"
  | eofObject => "EOF while parsing an object"
  | eofString => "EOF while parsing a string"
  | expectedValue => "expected value"
  | expectedIdent => "expected ident"
  | expectedColon => "expected `:`"
  | expectedListEnd => "expected `,` or `]`"
  | expectedObjectEnd => "expected `,` or `\x7d`"
  | trailingComma => "trailing comma"
  | trailingCharacters => "trailing characters"
  | keyNotString => "key must be a string"
  | invalidNumber => "invalid number"
  | numberOutOfRange => "number out of range"
  | invalidEscape => "invalid escape"
  | endOfHexEscape => "unexpected end of hex escape"
  | loneSurrogate => "lone leading surrogate in hex escape"
  | controlCharacter => "control character (\\u0000-\\u001F) found while parsing a string"
  | recursionLimit => "recursion limit exceeded"

/-- What a place in a document asks for. -/
inductive Expected where
  | text
  | flag
  | sequence
  | record (title : String)
  | variant
  | tagged (title : String)
  | unit
deriving DecidableEq

def Expected.phrase : Expected → String
  | text => "a string"
  | flag => "a boolean"
  | sequence => "a sequence"
  | record title => title
  | variant => "variant identifier"
  | tagged title => "internally tagged enum " ++ title
  | unit => "unit"

/-- The kind of a value, with the value itself where it is short. -/
def describe : Json → String
  | null => "null"
  | bool b => "boolean `" ++ (if b then "true" else "false") ++ "`"
  | int n => "integer `" ++ toString n ++ "`"
  | num x => "floating point `" ++ x.toJsonText ++ "`"
  | str s => "string " ++ Text.quoted s
  | arr _ => "sequence"
  | obj _ => "map"

/-- A value that does not have the shape asked for. -/
inductive Fault where
  | mismatch (got : Json) (want : Expected)
  | missing (key : String)
  | duplicate (key : String)
  | unknownChoice (got : String) (known : List String)
  | tooShort (length : Nat) (title : String) (fields : Nat)
  | tooLong (length : Nat) (fields : Nat)
  | noAlternative (title : String)

/-- A number of elements in words. -/
def elements (n : Nat) : String :=
  toString n ++ (if n = 1 then " element" else " elements")

def Fault.message : Fault → String
  | mismatch got want => "invalid type: " ++ describe got ++ ", expected " ++ want.phrase
  | missing key => "missing field `" ++ key ++ "`"
  | duplicate key => "duplicate field `" ++ key ++ "`"
  | unknownChoice got known =>
    "unknown variant `" ++ got ++ "`, expected "
      ++ " or ".intercalate (known.map fun k => "`" ++ k ++ "`")
  | tooShort n title fields =>
    "invalid length " ++ toString n ++ ", expected " ++ title ++ " with " ++ elements fields
  | tooLong n fields =>
    "invalid length " ++ toString n ++ ", expected " ++ elements fields ++ " in sequence"
  | noAlternative title => "data did not match any variant of untagged enum " ++ title

inductive ReadError where
  | text (error : TextError)
  | shape (fault : Fault)

def ReadError.message : ReadError → String
  | text e => e.message
  | shape f => f.message

end ZodGraph.Json
