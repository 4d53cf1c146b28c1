import ZodGraph.Double.Read

/-!
Patterns that the value of a field may be asked to match. No event is ever matched against one,
so all that counts is whether a pattern is well formed.
-/

namespace ZodGraph.Log

inductive PatternFault where
  | malformed
  /-- Boundaries of words are not supported. -/
  | wordBoundary
deriving DecidableEq

def PatternFault.message : PatternFault → String
  | malformed => "error building NFA"
  | wordBoundary =>
    "unsupported regex feature for DFAs: cannot build DFAs for regexes with Unicode word "
      ++ "boundaries; switch to ASCII word boundaries, or heuristically enable Unicode word "
      ++ "boundaries or use a different regex engine"

namespace Pattern

def isHex (c : Char) : Bool :=
  c.isDigit || ('a' ≤ c && c ≤ 'f') || ('A' ≤ c && c ≤ 'F')

def hexValue (cs : List Char) : Nat :=
  let digit (c : Char) : Nat :=
    if c.isDigit then c.toNat - '0'.toNat
    else if 'a' ≤ c then c.toNat - 'a'.toNat + 10
    else c.toNat - 'A'.toNat + 10
  cs.foldl (fun n c => 16 * n + digit c) 0

/-- A character by its code, of `n` digits. -/
def hexEscape (n : Nat) (cs : List Char) : Option (Char × List Char) :=
  let ds := cs.take n
  let code := hexValue ds
  if ds.length = n ∧ ds.all isHex ∧ (code < 0xd800 ∨ (0xdfff < code ∧ code ≤ 0x10ffff)) then
    some (Char.ofNat code, cs.drop n)
  else none

/-- What an escape stands for. -/
inductive Escape where
  | char (c : Char)
  | set
  | anchor
  | boundary

/-- An escape behind its backslash. -/
def escape : List Char → Option (Escape × List Char)
  | [] => none
  | c :: cs =>
    if c = 'x' then (hexEscape 2 cs).map fun r => (.char r.1, r.2)
    else if c = 'u' then (hexEscape 4 cs).map fun r => (.char r.1, r.2)
    else if c = 'U' then (hexEscape 8 cs).map fun r => (.char r.1, r.2)
    else if c = 'p' ∨ c = 'P' then
      match cs with
      | k :: r => if "LMNPSZC".toList.contains k then some (.set, r) else none
      | [] => none
    else if "dDsSwW".toList.contains c then some (.set, cs)
    else if "aftnrv".toList.contains c then some (.char c, cs)
    else if c = 'A' ∨ c = 'z' then some (.anchor, cs)
    else if c = 'b' ∨ c = 'B' ∨ c = '<' ∨ c = '>' then some (.boundary, cs)
    else if c.toNat < 0x80 ∧ !c.isAlphanum then some (.char c, cs)
    else none

/-- An end of a range, or something else, between brackets. -/
def classItem : List Char → Option (Option Char × List Char)
  | [] => none
  | '\\' :: cs =>
    match escape cs with
    | some (.char c, r) => some (some c, r)
    | some (.set, r) => some (none, r)
    | _ => none
  | c :: cs => some (some c, cs)

/-- What follows an end of a range: the other end, if there is one. -/
def classRange (first : Option Char) (cs : List Char) : Option (List Char) :=
  match cs with
  | '-' :: ']' :: _ | '-' :: '-' :: _ => some cs
  | '-' :: r => do
    let (last, r) ← classItem r
    match first, last with
    | some a, some b => if a ≤ b then some r else none
    | _, _ => none
  | _ => some cs

/-- The rest of brackets, through at most `n` items. -/
def classRest : Nat → Nat → List Char → Option (List Char)
  | 0, _, _ => none
  | n + 1, depth, cs =>
    match cs with
    | [] => none
    | ']' :: r => if depth = 0 then some r else classRest n (depth - 1) r
    | '[' :: '^' :: ']' :: r => classRest n (depth + 1) r
    | '[' :: '^' :: r => classRest n (depth + 1) r
    | '[' :: ']' :: r => classRest n (depth + 1) r
    | '[' :: r => classRest n (depth + 1) r
    | '&' :: '&' :: r | '-' :: '-' :: r | '~' :: '~' :: r => classRest n depth r
    | cs =>
      match classItem cs with
      | none => none
      | some (first, r) => (classRange first r).bind (classRest n depth)

/-- Brackets behind the first; a closing one right at the start is part of the set. -/
def classBody (cs : List Char) : Option (List Char) :=
  let cs := match cs with
    | '^' :: r => r
    | r => r
  let cs := match cs with
    | ']' :: r => r
    | r => r
  classRest (cs.length + 1) 0 cs

def isNameChar (first : Bool) (c : Char) : Bool :=
  c = '_' || c.isAlpha || (!first && (c.isDigit || c = '.' || c = '[' || c = ']'))

/-- The name of a group up to its closing angle bracket. -/
def groupName (cs : List Char) : Option (List Char) :=
  let name := cs.takeWhile (· ≠ '>')
  match name, cs.dropWhile (· ≠ '>') with
  | c :: more, _ :: r =>
    if isNameChar true c && more.all (isNameChar false) then some r else none
  | _, _ => none

/-- Flags of a group: each once, and behind a minus sign at least one. -/
def flagsOk (flags : List Char) : Bool :=
  let letters := flags.filter (· ≠ '-')
  !flags.isEmpty && letters.all ("imsUuxR".toList.contains ·) && letters.Nodup
    && (flags.filter (· = '-')).length ≤ 1 && flags.getLast? != some '-'

/-- How a group starts behind its parenthesis. -/
inductive Opening where
  | group (rest : List Char)
  /-- Flags that hold for what follows. -/
  | flags (rest : List Char)

def opening : List Char → Option Opening
  | '?' :: 'P' :: '<' :: cs => (groupName cs).map .group
  | '?' :: '<' :: cs => (groupName cs).map .group
  | '?' :: ':' :: cs => some (.group cs)
  | '?' :: cs =>
    let flags := cs.takeWhile fun c => c ≠ ':' ∧ c ≠ ')'
    match cs.dropWhile fun c => c ≠ ':' ∧ c ≠ ')' with
    | ':' :: r => if flagsOk flags then some (.group r) else none
    | ')' :: r => if flagsOk flags then some (.flags r) else none
    | _ => none
  | cs => some (.group cs)

/-- A pattern of at most `n` pieces inside `depth` groups. The flags say whether there is
something to repeat, and whether a boundary of words has been met. -/
def check : Nat → Nat → Bool → Bool → List Char → Option PatternFault
  | 0, _, _, _, _ => some .malformed
  | n + 1, depth, atom, boundary, cs =>
    match cs with
    | [] =>
      if depth ≠ 0 then some .malformed
      else if boundary then some .wordBoundary
      else none
    | '(' :: r =>
      match opening r with
      | none => some .malformed
      | some (.group r) => check n (depth + 1) false boundary r
      | some (.flags r) => check n depth false boundary r
    | ')' :: r => if depth = 0 then some .malformed else check n (depth - 1) true boundary r
    | '|' :: r => check n depth false boundary r
    | '[' :: r =>
      match classBody r with
      | none => some .malformed
      | some r => check n depth true boundary r
    | '\\' :: r =>
      match escape r with
      | none => some .malformed
      | some (.boundary, r) => check n depth true true r
      | some (_, r) => check n depth true boundary r
    | c :: r =>
      if c = '*' ∨ c = '+' ∨ c = '?' then
        if atom then check n depth true boundary (if r.head? = some '?' then r.drop 1 else r)
        else some .malformed
      else if c = '\x7b' then some .malformed
      else check n depth true boundary r

end Pattern

/-- Words for a number that is none or has no end. -/
def isNumberWord (s : String) : Bool :=
  let cs := match s.toList with
    | '+' :: r => r
    | '-' :: r => r
    | r => r
  ["inf", "infinity", "nan"].contains (String.ofList (cs.map Char.toLower))

/-- What is wrong with the value that a field is to have: a number is taken as one, and all else
is a pattern. -/
def valueFault? (value : String) : Option PatternFault :=
  if (Double.ofText? value).isSome || isNumberWord value then none
  else
    let cs := value.toList
    Pattern.check (cs.length + 1) 0 false false cs

end ZodGraph.Log
