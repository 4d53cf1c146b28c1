import ZodGraph.Double.Text
import ZodGraph.Json

/-!
JSON text of a value: on one line, or indented by two spaces a level.
-/

namespace ZodGraph.Json

/-- A hexadecimal number of four digits. -/
def hex4 (n : Nat) : List Char :=
  let ds := Nat.toDigits 16 n
  List.replicate (4 - ds.length) '0' ++ ds

/-- A character inside the quotes of a string. -/
def escapeChar (c : Char) : List Char :=
  match c with
  | '"' => ['\\', '"']
  | '\\' => ['\\', '\\']
  | '\x08' => ['\\', 'b']
  | '\x0c' => ['\\', 'f']
  | '\n' => ['\\', 'n']
  | '\r' => ['\\', 'r']
  | '\t' => ['\\', 't']
  | c => if c.toNat < 32 then '\\' :: 'u' :: hex4 c.toNat else [c]

def printString (s : String) : String :=
  String.ofList ('"' :: s.toList.flatMap escapeChar ++ ['"'])

mutual

/-- The value on one line, without blanks. -/
def compact : Json → String
  | null => "null"
  | bool b => if b then "true" else "false"
  | int n => toString n
  | num x => x.toJsonText
  | str s => printString s
  | arr items => "[" ++ compactItems items ++ "]"
  | obj entries => "\x7b" ++ compactEntries entries ++ "\x7d"

def compactItems : List Json → String
  | [] => ""
  | [j] => compact j
  | j :: js => compact j ++ "," ++ compactItems js

def compactEntries : List (String × Json) → String
  | [] => ""
  | [(k, j)] => printString k ++ ":" ++ compact j
  | (k, j) :: es => printString k ++ ":" ++ compact j ++ "," ++ compactEntries es

end

/-- A line break and the indentation of a level. -/
def newline (level : Nat) : String :=
  String.ofList ('\n' :: List.replicate (2 * level) ' ')

mutual

/-- The value over several lines; `level` is that of the line it starts on. -/
def pretty (level : Nat) : Json → String
  | arr [] => "[]"
  | arr (j :: js) => "[" ++ prettyItems (level + 1) (j :: js) ++ newline level ++ "]"
  | obj [] => "\x7b\x7d"
  | obj (e :: es) => "\x7b" ++ prettyEntries (level + 1) (e :: es) ++ newline level ++ "\x7d"
  | null => "null"
  | bool b => if b then "true" else "false"
  | int n => toString n
  | num x => x.toJsonText
  | str s => printString s

def prettyItems (level : Nat) : List Json → String
  | [] => ""
  | [j] => newline level ++ pretty level j
  | j :: js => newline level ++ pretty level j ++ "," ++ prettyItems level js

def prettyEntries (level : Nat) : List (String × Json) → String
  | [] => ""
  | [(k, j)] => newline level ++ printString k ++ ": " ++ pretty level j
  | (k, j) :: es =>
    newline level ++ printString k ++ ": " ++ pretty level j ++ "," ++ prettyEntries level es

end

end ZodGraph.Json
