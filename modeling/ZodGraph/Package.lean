import ZodGraph.Json.Printer
import ZodGraph.Options
import ZodGraph.Path

/-!
The files that make a package of a module: a manifest, usage notes, build settings and a list of
what is not published.
-/

namespace ZodGraph

/-- A file to write. -/
structure File where
  path : String
  contents : String
deriving DecidableEq, Inhabited

namespace Package

/-- The validator library release that generated modules are written for. -/
def zodVersion : String := "^3.23.8"

def typescriptVersion : String := "^5.4.0"

def buildDir : String := "dist"

/-- The name of the built module. -/
def buildStem (source : String) : String := (Path.stem? source).getD "index"

def manifest (p : Package) (source : String) : Json :=
  .obj
    [ ("name", .str p.name),
      ("version", .str p.version),
      ("description", .str ("Zod validators for " ++ p.name)),
      ("type", .str "module"),
      ("main", .str (buildDir ++ "/" ++ buildStem source ++ ".js")),
      ("types", .str (buildDir ++ "/" ++ buildStem source ++ ".d.ts")),
      ("files", .arr [.str buildDir]),
      ("scripts", .obj [("build", .str "tsc")]),
      ("peerDependencies", .obj [("zod", .str zodVersion)]),
      ("devDependencies", .obj [("typescript", .str typescriptVersion), ("zod", .str zodVersion)]) ]

def buildSettings (source : String) : Json :=
  .obj
    [ ("compilerOptions", .obj
        [ ("target", .str "ES2020"),
          ("module", .str "ESNext"),
          ("moduleResolution", .str "bundler"),
          ("declaration", .bool true),
          ("outDir", .str buildDir),
          ("strict", .bool true),
          ("skipLibCheck", .bool true) ]),
      ("include", .arr [.str source]) ]

/-- The schema in the usage example. -/
def exampleSchema : List String → String
  | [] => "SomeSchema"
  | s :: _ => if s.isEmpty then "SomeSchema" else s

/-- The section that lists the exported schemas, if there are any. -/
def schemaLines (schemas : List String) : List String :=
  if schemas.isEmpty then []
  else ["## Schemas", ""] ++ schemas.map (fun s => "- `" ++ s ++ "`") ++ [""]

def readmeLines (p : Package) (source : String) (schemas : List String) : List String :=
  [ "# " ++ p.name,
    "",
    "Runtime validators generated from a TypeSpec definition with",
    "[zod](https://zod.dev).",
    "",
    "Version: " ++ p.version,
    "",
    "## Installation",
    "",
    "```sh",
    "npm install " ++ p.name ++ " zod",
    "```",
    "",
    "## Usage",
    "",
    "```ts",
    "import * as schemas from \"" ++ p.name ++ "\";",
    "",
    "const result = schemas." ++ exampleSchema schemas ++ ".safeParse(input);",
    "if (!result.success) \x7b",
    "  console.error(result.error.issues);",
    "\x7d",
    "```",
    "",
    "Every declared model and enum is exported as `<Name>Schema`.",
    "" ]
  ++ schemaLines schemas
  ++ [ "## Building",
    "",
    "```sh",
    "npm run build",
    "```",
    "",
    "This compiles `" ++ source ++ "` to `" ++ buildDir ++ "/`." ]

/-- Each line with its end. -/
def unlines (lines : List String) : String := String.join (lines.map (· ++ "\n"))

def readme (p : Package) (source : String) (schemas : List String) : String :=
  unlines (p.readmeLines source schemas)

/-- The files beside a module, given its file and the schemas it exports. -/
def files (p : Package) (source : String) (schemas : List String) : List File :=
  [ ⟨"package.json", unlines [(p.manifest source).pretty 0]⟩,
    ⟨"README.md", p.readme source schemas⟩,
    ⟨"tsconfig.json", unlines [(buildSettings source).pretty 0]⟩,
    ⟨".npmignore", unlines ["*.ts", "!*.d.ts", "tsconfig.json"]⟩ ]

end Package

end ZodGraph
