import ZodGraph.Text

/-!
Paths. A path is kept as it was written; its components decide which paths are equal and how
they are ordered.
-/

namespace ZodGraph.Path

inductive Component where
  | root
  /-- A dot at the very start; dots elsewhere say nothing. -/
  | current
  | parent
  | name (s : String)
deriving DecidableEq

def isAbsolute (path : String) : Bool := path.toList.head? = some '/'

/-- The components of pieces behind the first. -/
def innerComponent? (piece : String) : Option Component :=
  if piece = "" ∨ piece = "." then none
  else if piece = ".." then some .parent
  else some (.name piece)

def components (path : String) : List Component :=
  match Text.split '/' path with
  | [] => []
  | first :: rest =>
    let start :=
      if isAbsolute path then [.root]
      else if first = "." then [.current]
      else (innerComponent? first).toList
    start ++ rest.filterMap innerComponent?

/-- The root comes before a dot, then two dots, then names by code point. -/
def Component.rank : Component → Nat × String
  | root => (0, "")
  | current => (1, "")
  | parent => (2, "")
  | name s => (3, s)

def Component.before (a b : Component) : Bool :=
  a.rank.1 < b.rank.1 || (a.rank.1 == b.rank.1 && a.rank.2 < b.rank.2)

/-- Lexicographic, component by component. -/
def before : List Component → List Component → Bool
  | [], [] => false
  | [], _ :: _ => true
  | _ :: _, [] => false
  | a :: as, b :: bs => a.before b || (a == b && before as bs)

/-- A path below a directory; an absolute path stands for itself. -/
def join (dir path : String) : String :=
  if isAbsolute path ∨ dir = "" then path
  else if dir.toList.getLast? = some '/' then dir ++ path
  else dir ++ "/" ++ path

/-- Pieces between slashes that name nothing. -/
def saysNothing (piece : String) : Bool := piece = "" || piece = "."

/-- What a path starts with in front of all names: the root, or a dot of its own. -/
def start (path : String) : String :=
  if isAbsolute path then "/"
  else if (Text.split '/' path).head? = some "." then "."
  else ""

/-- The path up to its last component, as it is written. -/
def parent? (path : String) : Option String :=
  let head := start path
  let body := String.ofList (path.toList.drop head.length)
  match (Text.split '/' body).reverse.dropWhile saysNothing with
  | _ :: above => some (head ++ "/".intercalate (above.dropWhile saysNothing).reverse)
  | [] => if head = "." then some "" else none

/-- The path and what is above it, at most `n` paths. -/
def ancestorsUpTo : Nat → String → List String
  | 0, _ => []
  | n + 1, path =>
    path :: match parent? path with
      | none => []
      | some above => ancestorsUpTo n above

/-- The path and what is above it; every path is longer than the next. -/
def ancestors (path : String) : List String := ancestorsUpTo (path.length + 1) path

/-- Drops what follows the last dot, unless the name starts with that dot. -/
def stemOf (name : String) : String :=
  let cs := name.toList
  let before := (cs.reverse.dropWhile (· ≠ '.')).drop 1
  if before.isEmpty then name else String.ofList before.reverse

/-- The file name without its extension. -/
def stem? (path : String) : Option String :=
  match (components path).getLast? with
  | some (.name s) => some (stemOf s)
  | _ => none

end ZodGraph.Path
