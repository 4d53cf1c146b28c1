import ZodGraph.FileFault
import ZodGraph.Package
import ZodGraph.Path

/-!
Directories and files, as far as reading and writing by path need them. A path is walked name by
name, and each name but the last has to lead to a directory.
-/

namespace ZodGraph

inductive TreeEntry where
  | directory
  | file (bytes : List UInt8)
deriving DecidableEq

/-- Entries by the names on the way to them from the root. -/
structure FileTree where
  entries : List (List String × TreeEntry) := []

namespace FileTree

/-- The directory that relative paths start in. No path can spell its name. -/
def home : List String := ["\x00"]

/-- The root and the directory to start in are always there. -/
def entry? (t : FileTree) (names : List String) : Option TreeEntry :=
  if names.isEmpty ∨ names = home then some .directory else t.entries.lookup names

/-- Puts an entry in the place of one that was there. -/
def put (t : FileTree) (names : List String) (e : TreeEntry) : FileTree :=
  ⟨t.entries.filter (fun x => x.1 ≠ names) ++ [(names, e)]⟩

/-! ### Paths -/

/-- The longest name in bytes. -/
def nameLimit : Nat := 255

/-- Paths have fewer bytes. -/
def pathLimit : Nat := 4096

/-- What the text of a path may be. -/
def checkPath (path : String) : Except FileFault Unit :=
  if path.toList.contains '\x00' then .error .zeroInName
  else if path.isEmpty then .error .missing
  else if pathLimit ≤ path.utf8ByteSize then .error .nameTooLong
  else .ok ()

def checkName (name : String) : Except FileFault Unit :=
  if nameLimit < name.utf8ByteSize then .error .nameTooLong else .ok ()

/-- The place has to be a directory. -/
def checkDirectory (t : FileTree) (names : List String) : Except FileFault Unit :=
  match t.entry? names with
  | none => .error .missing
  | some (.file _) => .error .notDirectory
  | some .directory => .ok ()

/-- One step from a directory. -/
def enter (t : FileTree) (dir : List String) (name : String) : Except FileFault (List String) := do
  t.checkDirectory dir
  if name = "." then return dir
  if name = ".." then return dir.dropLast
  checkName name
  return dir ++ [name]

/-- The names of a path as it is written, dots included. -/
def steps (path : String) : List String := (Text.split '/' path).filter (!·.isEmpty)

def walk (t : FileTree) (path : String) (names : List String) : Except FileFault (List String) :=
  names.foldlM t.enter (if Path.isAbsolute path then [] else home)

/-- The place a path leads to, which need not exist. -/
def locate (t : FileTree) (path : String) : Except FileFault (List String) := do
  checkPath path
  t.walk path (steps path)

def isDirectory (t : FileTree) (path : String) : Bool :=
  match t.locate path with
  | .ok names => t.entry? names = some .directory
  | .error _ => false

def endsInSlash (path : String) : Bool := path.toList.getLast? = some '/'

/-- The directory in which a path makes an entry and the name of the entry, unless the path can
only be a directory. -/
def target (t : FileTree) (path : String) : Except FileFault (List String × Option String) := do
  checkPath path
  let names := steps path
  let dir ← t.walk path names.dropLast
  t.checkDirectory dir
  return (dir, names.getLast?.filter fun s => s ≠ "." ∧ s ≠ "..")

/-! ### Reading and writing -/

def read (t : FileTree) (path : String) : Except FileFault String := do
  let names ← t.locate path
  match t.entry? names with
  | none => .error .missing
  | some .directory => .error .isDirectory
  | some (.file bytes) =>
    if endsInSlash path then .error .notDirectory
    else match String.fromUTF8? ⟨bytes.toArray⟩ with
      | some s => .ok s
      | none => .error .notText

def makeDirectory (t : FileTree) (path : String) : Except FileFault FileTree := do
  match ← t.target path with
  | (_, none) => throw .alreadyExists
  | (dir, some name) =>
    checkName name
    if (t.entry? (dir ++ [name])).isSome then throw .alreadyExists
    return t.put (dir ++ [name]) .directory

/-- Looks for a directory to start from among a path and what is above it, and makes the first
that can be made. The others are left to do. -/
def findBase (t : FileTree) : List String → Except FileFault (FileTree × List String)
  | [] => .ok (t, [])
  | path :: above =>
    if (Path.parent? path).isNone then .ok (t, [])
    else match t.makeDirectory path with
      | .ok t => .ok (t, [])
      | .error .missing => (t.findBase above).map fun (t, todo) => (t, path :: todo)
      | .error e => if e = .alreadyExists ∧ t.isDirectory path then .ok (t, []) else .error e

/-- Makes directories in order; those made before a fault stay. -/
def makeEach (t : FileTree) : List String → FileTree × Option FileFault
  | [] => (t, none)
  | path :: more =>
    match t.makeDirectory path with
    | .ok t => t.makeEach more
    | .error e =>
      if e = .alreadyExists ∧ t.isDirectory path then t.makeEach more else (t, some e)

/-- Makes a directory and those above it. -/
def makeDirectories (t : FileTree) (path : String) : FileTree × Option FileFault :=
  match t.findBase (Path.ancestors path) with
  | .error e => (t, some e)
  | .ok (t, todo) => t.makeEach todo.reverse

/-- Writes text, over what was there. A path that can only be a directory is refused. -/
def overwrite (t : FileTree) (path contents : String) : Except FileFault FileTree := do
  match ← t.target path with
  | (_, none) => throw .isDirectory
  | (dir, some name) =>
    if endsInSlash path then throw .isDirectory
    checkName name
    match t.entry? (dir ++ [name]) with
    | some .directory => throw .isDirectory
    | _ => return t.put (dir ++ [name]) (.file contents.toUTF8.toList)

/-- Makes the directories above a file and writes it. What was made before a fault stays. -/
def write (f : File) : StateM FileTree (Option FileFault) := fun t =>
  match (Path.parent? f.path).elim (t, none) t.makeDirectories with
  | (t, some e) => (some e, t)
  | (t, none) =>
    match t.overwrite f.path f.contents with
    | .error e => (some e, t)
    | .ok t => (none, t)

/-! ### Working directory -/

/-- Adds a file with the directories above it; a path that ends in a slash is a directory. -/
def add (t : FileTree) (path : String) (bytes : List UInt8) : FileTree :=
  let names := steps path
  let above := (List.range names.length).map fun n => home ++ names.take n
  let t := above.foldl (fun t d => if (t.entry? d).isSome then t else t.put d .directory) t
  t.put (home ++ names) (if endsInSlash path then .directory else .file bytes)

/-- The names of a place below the working directory. -/
def fromHome? (names : List String) : Option (List String) :=
  if home.isPrefixOf names then some (names.drop home.length) else none

/-- Entries of the working directory that are new or have changed since the tree was as given. -/
def changes (before after : FileTree) : List (List String × TreeEntry) :=
  (after.entries.filter fun x => before.entries.lookup x.1 ≠ some x.2).filterMap fun x =>
    (fromHome? x.1).map fun names => (names, x.2)

end FileTree

end ZodGraph
