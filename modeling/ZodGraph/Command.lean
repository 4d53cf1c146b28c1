import ZodGraph.Options

/-!
Commands and the arguments they are given by.
-/

namespace ZodGraph

/-- What both commands work on: a graph, a config and options that override it. -/
structure Input where
  graph : String
  config : Option String := none
  overrides : Options := {}
deriving DecidableEq

/-- What there is help on. -/
inductive Topic where
  | program
  | compile
  | print
  | help
deriving DecidableEq

inductive Command where
  | compile (input : Input)
  | print (input : Input)
  | help (topic : Topic)
  | version
  /-- No command at all. -/
  | bare
deriving DecidableEq

/-- Why arguments give no run of a command. -/
inductive Stop where
  | help
  | misuse
deriving DecidableEq

namespace Command

/-- An option with a value. -/
structure Flag where
  name : String
  /-- The value is a path and may not be empty. -/
  isPath : Bool := false
deriving DecidableEq

def printFlags : List Flag :=
  [⟨"graph", true⟩, ⟨"config", true⟩, ⟨"output-file", false⟩, ⟨"package-name", false⟩,
    ⟨"package-version", false⟩]

def compileFlags : List Flag := printFlags ++ [⟨"output-dir", true⟩]

/-- How an argument looks. -/
inductive Shape where
  | word
  /-- Two dashes alone. -/
  | separator
  | long (name : String) (value : Option String)
  /-- One dash and letters. -/
  | short (letters : List Char)
deriving DecidableEq

/-- A name, and what follows an equals sign. -/
def splitValue (cs : List Char) : String × Option String :=
  let name := cs.takeWhile (· ≠ '=')
  match cs.dropWhile (· ≠ '=') with
  | [] => (String.ofList name, none)
  | _ :: value => (String.ofList name, some (String.ofList value))

def shape (arg : String) : Shape :=
  match arg.toList with
  | ['-', '-'] => .separator
  | '-' :: '-' :: cs => let (name, value) := splitValue cs; .long name value
  | ['-'] => .word
  | '-' :: cs => .short cs
  | _ => .word

/-- Values given so far. -/
abbrev Given := List (String × String)

/-- Adds the value of an option, which may be given once. -/
def give (given : Given) (flag : Flag) (value : String) : Except Stop Given :=
  if (given.lookup flag.name).isSome ∨ (flag.isPath ∧ value.isEmpty) then .error .misuse
  else .ok ((flag.name, value) :: given)

/-- Reads options. A value that starts with a dash has to follow an equals sign. -/
def readFlags (flags : List Flag) (given : Given) : List String → Except Stop Given
  | [] => .ok given
  | arg :: args =>
    match shape arg with
    | .word => .error .misuse
    | .separator => if args.isEmpty then .ok given else .error .misuse
    | .short letters => .error (if letters.head? = some 'h' then .help else .misuse)
    | .long name value =>
      match flags.find? fun f => f.name == name with
      | none => .error (if name = "help" ∧ value.isNone then .help else .misuse)
      | some flag =>
        match value with
        | some v => do readFlags flags (← give given flag v) args
        | none =>
          match args with
          | [] => .error .misuse
          | v :: rest =>
            if shape v = .word then do readFlags flags (← give given flag v) rest
            else .error .misuse

/-- A graph is required. -/
def inputOf (given : Given) : Except Stop Input :=
  match given.lookup "graph" with
  | none => .error .misuse
  | some graph => .ok
    { graph, config := given.lookup "config"
      overrides :=
        { outputDir := given.lookup "output-dir"
          outputFile := given.lookup "output-file"
          packageName := given.lookup "package-name"
          packageVersion := given.lookup "package-version" } }

/-- A command with options; asking for help wins over what follows. -/
def withInput (topic : Topic) (flags : List Flag) (make : Input → Command) (args : List String) :
    Except Stop Command :=
  match readFlags flags [] args >>= inputOf with
  | .ok input => .ok (make input)
  | .error .help => .ok (.help topic)
  | .error .misuse => .error .misuse

def helpTopic : List String → Except Stop Topic
  | [] => .ok .program
  | ["compile"] => .ok .compile
  | ["print"] => .ok .print
  | ["help"] => .ok .help
  | _ => .error .misuse

/-- The command that arguments give. -/
def parse : List String → Except Stop Command
  | [] => .ok .bare
  | arg :: args =>
    match shape arg with
    | .separator => if args.isEmpty then .ok .bare else .error .misuse
    | .long name value =>
      if value.isSome then .error .misuse
      else if name = "help" then .ok (.help .program)
      else if name = "version" then .ok .version
      else .error .misuse
    | .short letters =>
      match letters.head? with
      | some 'h' => .ok (.help .program)
      | some 'V' => .ok .version
      | _ => .error .misuse
    | .word =>
      if arg = "compile" then withInput .compile compileFlags .compile args
      else if arg = "print" then withInput .print printFlags .print args
      else if arg = "help" then (helpTopic args).map .help
      else .error .misuse

end Command

end ZodGraph
