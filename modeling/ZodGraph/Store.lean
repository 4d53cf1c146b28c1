import ZodGraph.Path

/-!
Files kept in memory, sorted by path. Paths with equal components name one file, and the file
keeps the path it was first written under.
-/

namespace ZodGraph

structure Store where
  files : List (String × String) := []
deriving Inhabited

namespace Store

def insertFile (path contents : String) : List (String × String) → List (String × String)
  | [] => [(path, contents)]
  | (p, c) :: rest =>
    if Path.components p = Path.components path then (p, contents) :: rest
    else if Path.before (Path.components path) (Path.components p) then
      (path, contents) :: (p, c) :: rest
    else (p, c) :: insertFile path contents rest

def write (s : Store) (path contents : String) : Store := ⟨insertFile path contents s.files⟩

def get? (s : Store) (path : String) : Option String :=
  (s.files.find? fun f => Path.components f.1 == Path.components path).map Prod.snd

end Store

end ZodGraph
