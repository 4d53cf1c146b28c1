import ZodGraph.Double

/-!
JSON values as a document holds them: objects keep the order of their entries and repeated keys.
-/

namespace ZodGraph

inductive Json where
  | null
  | bool (b : Bool)
  | int (n : Int)
  | num (x : Double)
  | str (s : String)
  | arr (items : List Json)
  | obj (entries : List (String × Json))
deriving Inhabited

namespace Json

/-- The greatest signed integer of 64 bits. -/
def maxInt : Int := 9223372036854775807

mutual

/-- How many brackets are open at the deepest place. -/
def depth : Json → Nat
  | arr items => depthItems items + 1
  | obj entries => depthEntries entries + 1
  | _ => 0

def depthItems : List Json → Nat
  | [] => 0
  | j :: js => max (depth j) (depthItems js)

def depthEntries : List (String × Json) → Nat
  | [] => 0
  | (_, j) :: es => max (depth j) (depthEntries es)

end

/-- Sets a key in a list sorted by key, in place of an entry it already has. -/
def insertEntry (key : String) (value : Json) : List (String × Json) → List (String × Json)
  | [] => [(key, value)]
  | (k, v) :: es =>
    if key < k then (key, value) :: (k, v) :: es
    else if key = k then (key, value) :: es
    else (k, v) :: insertEntry key value es

mutual

/-- The value with the keys of every object sorted; of a repeated key the last entry stays. -/
def collapse : Json → Json
  | arr items => arr (collapseItems items)
  | obj entries => obj (collapseEntries [] entries)
  | j => j

def collapseItems : List Json → List Json
  | [] => []
  | j :: js => collapse j :: collapseItems js

def collapseEntries (done : List (String × Json)) : List (String × Json) → List (String × Json)
  | [] => done
  | (k, j) :: es => collapseEntries (insertEntry k (collapse j) done) es

end

end Json

end ZodGraph
