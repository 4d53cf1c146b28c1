import ZodGraph.Double.Read
import ZodGraph.Double.Text
import ZodGraph.Text
import ZodGraph.Yaml.Node

/-!
Values of YAML nodes. Plain scalars are read as null, booleans, integers and floats where they
look like it. Tags of the language force a type, and local tags are kept around the value.
-/

namespace ZodGraph.Yaml

inductive Value where
  | null
  | bool (b : Bool)
  | int (n : Int)
  | float (x : Double)
  | string (s : String)
  | list (items : List Value)
  | map (entries : List (Value × Value))
  | tagged (tag : String) (value : Value)
deriving Inhabited

/-- Equality of numbers: the zeros are one, and so is what is no number. -/
def sameDouble (x y : Double) : Bool := x == y || (x.isZero && y.isZero) || (x.isNaN && y.isNaN)

mutual

/-- Equality of values; the order of a map does not matter. -/
def Value.same : Value → Value → Bool
  | .null, .null => true
  | .bool a, .bool b => a == b
  | .int a, .int b => a == b
  | .float x, .float y => sameDouble x y
  | .string a, .string b => a == b
  | .list xs, .list ys => sameItems xs ys
  | .map xs, .map ys => xs.length == ys.length && sameEntries xs ys
  | .tagged s x, .tagged t y => s == t && x.same y
  | _, _ => false

def sameItems : List Value → List Value → Bool
  | [], [] => true
  | x :: xs, y :: ys => x.same y && sameItems xs ys
  | _, _ => false

/-- Every entry of the first map is in the second. -/
def sameEntries : List (Value × Value) → List (Value × Value) → Bool
  | [], _ => true
  | (k, v) :: es, ys => (ys.any fun e => k.same e.1 && v.same e.2) && sameEntries es ys

end

/-- The value inside the tags. -/
def Value.untag : Value → Value
  | .tagged _ v => v.untag
  | v => v

/-- How a value is named in messages. -/
def Value.describe (v : Value) : String :=
  match v.untag with
  | .null => "unit value"
  | .bool b => "boolean `" ++ (if b then "true" else "false") ++ "`"
  | .int n => "integer `" ++ toString n ++ "`"
  | .float x => "floating point `" ++ x.toPointedText ++ "`"
  | .string s => "string " ++ Text.quoted s
  | .list _ => "sequence"
  | .map _ => "map"
  | .tagged _ _ => "enum"

/-! ### Scalars -/

def isNullWord (s : String) : Bool := ["null", "Null", "NULL", "~"].contains s

def readBool? (s : String) : Option Bool :=
  if ["true", "True", "TRUE"].contains s then some true
  else if ["false", "False", "FALSE"].contains s then some false
  else none

/-- Digits behind a zero, with or without a sign, are no number. -/
def isPadded (cs : List Char) : Bool :=
  let ds := match cs with
    | '-' :: r => r
    | '+' :: r => r
    | r => r
  1 < ds.length && ds.head? == some '0' && ds.all Char.isDigit

/-- The number in the given base. -/
def readDigits? (base : Nat) (cs : List Char) : Option Nat :=
  if cs.isEmpty then none
  else cs.foldlM (fun n c => do
    let d ← hexValue? c
    if d < base then some (base * n + d) else none) 0

/-- Digits in the base that they start with. -/
def readBased? : List Char → Option Nat
  | '0' :: 'x' :: cs => readDigits? 16 cs
  | '0' :: 'o' :: cs => readDigits? 8 cs
  | '0' :: 'b' :: cs => readDigits? 2 cs
  | _ => none

/-- A whole number of any size. -/
def readInt? (s : String) : Option Int :=
  let cs := s.toList
  let whole (cs : List Char) := (readBased? cs).or (if isPadded cs then none else readDigits? 10 cs)
  match cs with
  | '-' :: r => (whole r).map fun n => -(n : Int)
  | '+' :: r => (whole r).map Int.ofNat
  | r => (whole r).map Int.ofNat

/-- Integers fit in 64 bits. Wider ones up to 128 bits are refused, and still wider ones are no
integers. -/
inductive IntSize where
  | fits
  | wide
  | none

def IntSize.of (n : Int) : IntSize :=
  if -(Double.pow2 63 : Int) ≤ n ∧ n < Double.pow2 64 then .fits
  else if -(Double.pow2 127 : Int) ≤ n ∧ n < Double.pow2 128 then .wide
  else .none

def readFloat? (s : String) : Option Double :=
  let cs := s.toList
  let unsigned := match cs with
    | '+' :: r => r
    | r => r
  if [".inf", ".Inf", ".INF"].contains (String.ofList unsigned) then some .infinity
  else if ["-.inf", "-.Inf", "-.INF"].contains s then some Double.infinity.neg
  else if [".nan", ".NaN", ".NAN"].contains s then some .nan
  else if cs.head? == some '+' && unsigned.head?.any (['+', '-'].contains ·) then none
  else match Double.ofText? (String.ofList unsigned) with
    | some x => if x.isFinite then some x else none
    | none => none

/-- The value of a plain scalar; nothing if it is too wide an integer. -/
def plainValue (s : String) : Option Value :=
  if s.isEmpty || isNullWord s then some .null
  else match readBool? s with
    | some b => some (.bool b)
    | none =>
      match (readInt? s).map fun n => (n, IntSize.of n) with
      | some (n, .fits) => some (.int n)
      | some (_, .wide) => none
      | _ =>
        if isPadded s.toList then some (.string s)
        else match readFloat? s with
          | some x => some (.float x)
          | none => some (.string s)

/-- The value of a scalar, but for the name of a local tag. -/
def scalarValue (tag : Option Tag) (text : String) (plain : Bool) : Option Value :=
  match tag with
  | none => if plain then plainValue text else some (.string text)
  | some t =>
    if t = .language "bool" then (readBool? text).map .bool
    else if t = .language "int" then
      match (readInt? text).map fun n => (n, IntSize.of n) with
      | some (n, .fits) => some (.int n)
      | _ => none
    else if t = .language "float" then (readFloat? text).map .float
    else if t = .language "null" then if isNullWord text then some .null else none
    else if plain && t.isLocal then plainValue text
    else some (.string text)

/-! ### Nodes -/

/-- Why a document has no value. -/
inductive ValueFault where
  /-- At a place in the text. -/
  | located
  /-- Aliases are followed too often. -/
  | repetition
deriving DecidableEq

/-- Anchored nodes, and how many aliases may be followed. -/
structure Links where
  table : List (Nat × LinkedNode)
  limit : Nat

/-- Reading with a count of the aliases followed so far. -/
abbrev Read (α : Type) := StateT Nat (Except ValueFault) α

/-- The node an alias stands for; of nodes with one number the last counts. -/
def Links.follow (links : Links) (node : LinkedNode) : Read LinkedNode :=
  match node with
  | .alias n => do
    let count ← get
    set (count + 1)
    if links.limit < count + 1 then throw .repetition
    match links.table.reverse.lookup n with
    | some target => pure target
    | none => throw .located
  | node => pure node

/-- A local tag goes around the value. -/
def withTag (props : Properties) (v : Value) : Value :=
  match props.tag.bind Tag.localName? with
  | none => v
  | some t => .tagged t v

/-- Adds entries one by one; a key may not come twice. -/
def readEntries (value : LinkedNode → Read Value) (done : List (Value × Value)) :
    List (LinkedNode × LinkedNode) → Read (List (Value × Value))
  | [] => pure done.reverse
  | (k, v) :: es => do
    let key ← value k
    if done.any fun e => e.1.same key then throw .located
    let v ← value v
    readEntries value ((key, v) :: done) es

/-- The value of a node in which lists and maps nest at most to the given depth. -/
def Links.value (links : Links) : Nat → LinkedNode → Read Value
  | depth, node => do
    match ← links.follow node with
    | .alias _ => throw .located
    | .broken => throw .located
    | .scalar props text plain =>
      let tag := match props.tag.bind Tag.localName? with
        | none => props.tag
        | some _ => none
      match scalarValue tag text plain with
      | none => throw .located
      | some v => return withTag props v
    | .list props items =>
      match depth with
      | 0 => throw .located
      | d + 1 => do return withTag props (.list (← items.mapM (links.value d)))
    | .map props entries =>
      match depth with
      | 0 => throw .located
      | d + 1 => do
        return withTag props (.map (← readEntries (links.value d) [] entries))

end ZodGraph.Yaml
