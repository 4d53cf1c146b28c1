import ZodGraph.Double.Text
import ZodGraph.Schema
import ZodGraph.Schema.Name

/-!
The source text of expressions and modules. Objects spread over lines, two spaces a level.
-/

namespace ZodGraph.Schema

def Primitive.text : Primitive → String
  | string => "z.string()"
  | number => "z.number()"
  | boolean => "z.boolean()"
  | date => "z.date()"
  | unknown => "z.unknown()"
  | never => "z.never()"
  | null => "z.null()"
  | void => "z.void()"

def literalText : Literal → String
  | .bool b => if b then "true" else "false"
  | .int n => toString n
  | .number x => x.toText
  | .string s => stringLiteral s

def indentation (level : Nat) : String := String.ofList (List.replicate (2 * level) ' ')

def optionalText (optional : Bool) : String := if optional then ".optional()" else ""

mutual

/-- The text of an expression whose first line stands at the given level. -/
def Expr.text (level : Nat) : Expr → String
  | .primitive p => p.text
  | .url => "z.string().url()"
  | .instanceOf c => "z.instanceof(" ++ c ++ ")"
  | .literal v => "z.literal(" ++ literalText v ++ ")"
  | .enum vs => "z.enum([" ++ ", ".intercalate (vs.map stringLiteral) ++ "])"
  | .ref n => identifier n
  | .lazy n => "z.lazy(() => " ++ identifier n ++ ")"
  | .array e => "z.array(" ++ e.text level ++ ")"
  | .record k v => "z.record(" ++ k.text level ++ ", " ++ v.text level ++ ")"
  | .union es => "z.union([" ++ ", ".intercalate (textItems level es) ++ "])"
  | .object fields catchall => objectText level fields ++ catchallText level catchall

/-- The fields of an object in their braces. -/
def objectText (level : Nat) : List (FieldOf Expr) → String
  | [] => "z.object(\x7b\x7d)"
  | f :: fs => "z.object(\x7b\n" ++ fieldsText (level + 1) (f :: fs) ++ indentation level ++ "\x7d)"

def catchallText (level : Nat) : Option Expr → String
  | none => ""
  | some e => ".catchall(" ++ e.text level ++ ")"

def textItems (level : Nat) : List Expr → List String
  | [] => []
  | e :: es => e.text level :: textItems level es

/-- A line or more for each field, at the given level. -/
def fieldsText (level : Nat) : List (FieldOf Expr) → String
  | [] => ""
  | ⟨name, expr, optional⟩ :: fs =>
    indentation level ++ key name ++ ": " ++ expr.text level ++ optionalText optional ++ ",\n"
      ++ fieldsText level fs

end

def FieldOf.text (level : Nat) (f : Field) : String := fieldsText level [f]

def Definition.text (d : Definition) : String :=
  "export const " ++ identifier d.name ++ " = " ++ d.expr.text 0 ++ ";\n"

def Import.text (i : Import) : String :=
  "import \x7b " ++ ", ".intercalate i.items ++ " \x7d from " ++ stringLiteral i.source ++ ";\n"

/-- A line of the metadata comment, if there is something to show. -/
def metadataLine (label : String) : Option String → String
  | none => ""
  | some s => " * " ++ label ++ ": " ++ commentText s ++ "\n"

def Metadata.text (m : Metadata) : String :=
  "/**\n" ++ metadataLine "Package" m.packageName ++ metadataLine "Version" m.packageVersion
    ++ " */\n"

/-- The parts of a module that blank lines keep apart: imports, metadata, definitions. -/
def Module.sections (m : Module) : List String :=
  let imports := String.join (m.imports.map Import.text)
  (if imports.isEmpty then [] else [imports])
    ++ m.metadata.toList.map Metadata.text
    ++ m.definitions.map Definition.text

def Module.text (m : Module) : String := "\n".intercalate m.sections

end ZodGraph.Schema
