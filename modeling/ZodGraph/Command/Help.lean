import ZodGraph.Command
import ZodGraph.Package

/-!
Help on the program and its commands.
-/

namespace ZodGraph

def versionText : String := "zodspec 0.1.0\n"

def aboutCompile : String := "Generate the validator module (and package files) on disk"

def aboutPrint : String := "Print the validator module to stdout"

def aboutHelp : String := "Print this message or the help of the given subcommand(s)"

/-- Options of both commands. -/
def inputHelp : List String :=
  [ "      --graph <GRAPH_JSON>                 Type graph snapshot exported by the TypeSpec compiler",
    "      --config <CONFIG_YAML>               tspconfig.yaml with an `options.zodspec` section",
    "      --output-file <OUTPUT_FILE>          File name of the generated module",
    "      --package-name <PACKAGE_NAME>        npm package name",
    "      --package-version <PACKAGE_VERSION>  npm package version" ]

def Topic.lines : Topic → List String
  | program =>
    [ "Compile TypeSpec type graphs into Zod validator modules",
      "",
      "Usage: zodspec [COMMAND]",
      "",
      "Commands:",
      "  compile  " ++ aboutCompile,
      "  print    " ++ aboutPrint,
      "  help     " ++ aboutHelp,
      "",
      "Options:",
      "  -h, --help     Print help",
      "  -V, --version  Print version" ]
  | compile =>
    [ aboutCompile,
      "",
      "Usage: zodspec compile [OPTIONS] --graph <GRAPH_JSON>",
      "",
      "Options:" ]
    ++ inputHelp
    ++ [ "      --output-dir <DIR>                   Directory to write to. Defaults to tsp-output/zodspec",
      "  -h, --help                               Print help" ]
  | print =>
    [ aboutPrint,
      "",
      "Usage: zodspec print [OPTIONS] --graph <GRAPH_JSON>",
      "",
      "Options:" ]
    ++ inputHelp
    ++ [ "  -h, --help                               Print help" ]
  | help =>
    [ aboutHelp,
      "",
      "Usage: zodspec help [COMMAND]...",
      "",
      "Arguments:",
      "  [COMMAND]...  Print help for the subcommand(s)" ]

def Topic.text (t : Topic) : String := Package.unlines t.lines

end ZodGraph
