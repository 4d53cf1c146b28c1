import ZodGraph.Command.Help
import ZodGraph.FileTree
import ZodGraph.Graph.Reader
import ZodGraph.Log.Events
import ZodGraph.Log.Filter
import ZodGraph.Options.Config

/-!
Running a command: the config is read first, then the graph, then the module is written or
printed. Files are reached through the functions that the command is given.
-/

namespace ZodGraph

open Log (Event)

/-- How a command reaches files. -/
structure Host (m : Type → Type) where
  read : String → m (Except FileFault String)
  write : File → m (Option FileFault)

/-- Something for the error stream. -/
inductive Notice where
  | event (e : Event)
  | line (text : String)
deriving DecidableEq

/-- What a run leaves. -/
structure Outcome where
  code : Nat := 0
  output : String := ""
  notices : List Notice := []
deriving DecidableEq

/-- Why a run fails. -/
inductive RunFault where
  | readConfig (path : String) (cause : FileFault)
  | parseConfig (path : String) (cause : ConfigFault)
  | readGraph (path : String) (cause : FileFault)
  | parseGraph (cause : Json.ReadError)
  | write (failure : Emission.Failure)

def RunFault.message : RunFault → String
  | readConfig path cause => "failed to read config " ++ path ++ ": " ++ cause.message
  | parseConfig path cause =>
    "failed to parse config " ++ path ++ ": " ++ cause.message?.getD "malformed document"
  | readGraph path cause => "failed to read type graph " ++ path ++ ": " ++ cause.message
  | parseGraph cause => "failed to parse type graph: " ++ cause.message
  | write failure => failure.message

/-- An option in a log line. -/
def settingText : Option String → String
  | none => "None"
  | some s => "Some(" ++ Text.quoted s ++ ")"

def Options.event (o : Options) : Event :=
  ⟨.debug, "zodspec_cli::common", "Resolved emitter options.",
    [⟨"options",
      "EmitterOptions \x7b output_dir: " ++ settingText o.outputDir
        ++ ", output_file: " ++ settingText o.outputFile
        ++ ", package_name: " ++ settingText o.packageName
        ++ ", package_version: " ++ settingText o.packageVersion ++ " \x7d", false⟩]⟩

/-- Where files go when nothing else is set. -/
def defaultDirectory : String := "tsp-output/zodspec"

def nothingText : String := "No models or enums to emit."

namespace Command

variable {m : Type → Type} [Monad m]

def readOptions (host : Host m) (input : Input) : m (Except RunFault Options) := do
  match input.config with
  | none => return .ok input.overrides
  | some path =>
    match ← host.read path with
    | .error e => return .error (.readConfig path e)
    | .ok text =>
      match Options.ofConfig text with
      | .error e => return .error (.parseConfig path e)
      | .ok o => return .ok (o.merge input.overrides)

def readGraph (host : Host m) (input : Input) : m (Except RunFault Namespace) := do
  match ← host.read input.graph with
  | .error e => return .error (.readGraph input.graph e)
  | .ok text =>
    match Namespace.parse text with
    | .error e => return .error (.parseGraph e)
    | .ok root => return .ok root

def fail (notices : List Notice) (fault : RunFault) : Outcome :=
  { code := 1, notices := notices ++ [.line fault.message] }

/-- Prints the module. -/
def printModule (notices : List Notice) (root : Namespace) (options : Options) : Outcome :=
  let notices := notices ++ root.documentEvents.map .event
  match root.document options with
  | some text => { output := text, notices }
  | none => { notices := notices ++ [.line nothingText] }

/-- Writes the files and lists them. -/
def writeFiles (host : Host m) (notices : List Notice) (root : Namespace) (options : Options) :
    m Outcome := do
  let report ← Emission.emit host.write root options defaultDirectory
  let notices := notices ++ (root.diskEvents options defaultDirectory report).map .event
  match report.outcome with
  | .error e => return fail notices (.write e)
  | .ok .nothing => return { output := Package.unlines [nothingText], notices }
  | .ok (.written paths) => return { output := Package.unlines paths, notices }

/-- Reads the input of a command and goes on with it. -/
def withLoaded (host : Host m) (input : Input)
    (next : List Notice → Namespace → Options → m Outcome) : m Outcome := do
  match ← readOptions host input with
  | .error e => return fail [] e
  | .ok options =>
    let notices := [.event options.event]
    match ← readGraph host input with
    | .error e => return fail notices e
    | .ok root => next notices root options

/-- Runs a command and leaves all its events. -/
def run (host : Host m) : Command → m Outcome
  | .help topic => return { output := topic.text }
  | .version => return { output := versionText }
  | .bare => return { output := Topic.program.text ++ "\n" }
  | .print input => withLoaded host input fun ns root o => return printModule ns root o
  | .compile input => withLoaded host input (writeFiles host)

/-- Help and version are shown before the log is set up. -/
def usesLog : Command → Bool
  | .help _ => false
  | .version => false
  | _ => true

end Command

/-- Keeps the events that the log takes. -/
def Log.Filter.admitsNotice (f : Log.Filter) : Notice → Bool
  | .event e => f.admits e
  | .line _ => true

/-- Runs the program with the given arguments and log setting. -/
def runProgram {m : Type → Type} [Monad m] (host : Host m) (setting : Option String)
    (args : List String) : m Outcome := do
  match Command.parse args with
  | .error _ => return { code := 2, notices := [.line "error: invalid arguments"] }
  | .ok command =>
    let o ← command.run host
    if command.usesLog then
      let kept := o.notices.filter (Log.Filter.ofSetting setting).admitsNotice
      return { o with notices := (Log.complaints setting).map .line ++ kept }
    else return o

/-- A run on a tree of files. -/
def runOnTree (t : FileTree) (setting : Option String) (args : List String) :
    Outcome × FileTree :=
  let host : Host (StateM FileTree) :=
    { read := fun path t => (t.read path, t), write := FileTree.write }
  (runProgram host setting args).run t

end ZodGraph
