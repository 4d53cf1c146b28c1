import ZodGraph.Yaml.Scalar

/-!
Tags of nodes. A tag is written with a handle and a suffix, or in full between angle brackets.
Escapes in it stand for single bytes, which need not make up any text.
-/

namespace ZodGraph.Yaml

/-- The bytes of a tag. -/
abbrev Tag := List UInt8

namespace Tag

def ofText (s : String) : Tag := s.toUTF8.toList

/-- A zero ends a tag early. -/
def ofBytes (bytes : List UInt8) : Tag := bytes.takeWhile (· != 0)

def bang : UInt8 := 0x21

/-- A tag of the document, not of the language. -/
def isLocal (t : Tag) : Bool := t.head? == some bang

/-- Drops an exclamation mark in front of something. -/
def dropBang : Tag → Tag
  | [] => []
  | [b] => [b]
  | b :: bs => if b = bang then bs else b :: bs

/-- The name of a local tag, if it is text. Two exclamation marks in front count like one. -/
def localName? (t : Tag) : Option String :=
  if t.isLocal then String.fromUTF8? ⟨t.dropBang.dropBang.toArray⟩ else none

/-- A tag of the language. -/
def language (name : String) : Tag := ofText ("tag:yaml.org,2002:" ++ name)

/-! ### Reading -/

/-- The handle of a tag, at its exclamation mark. -/
def readHandle (c : Cursor) : List Char × Cursor :=
  let name := c.skip.rest.takeWhile isWordChar
  let c := c.skip (name.length + 1)
  match c.rest with
  | '!' :: _ => ('!' :: name ++ ['!'], c.skip)
  | _ => ('!' :: name, c)

/-- Characters of a tag; between angle brackets there are more. -/
def isUriChar (verbatim : Bool) (c : Char) : Bool :=
  isWordChar c
    || [';', '/', '?', ':', '@', '&', '=', '+', '$', '.', '!', '~', '*', '\'', '(', ')'].contains c
    || (verbatim && [',', '[', ']'].contains c)

/-- A byte in hexadecimal behind a percent sign. -/
def readOctet : List Char → Option (Nat × List Char)
  | '%' :: cs => hexNumber? 2 0 cs
  | _ => none

/-- How many bytes follow the first byte of a character. -/
def following? (b : Nat) : Option Nat :=
  if b < 0x80 then some 0
  else if b / 32 = 6 then some 1
  else if b / 16 = 14 then some 2
  else if b / 8 = 30 then some 3
  else none

/-- Bytes that go on with a character. -/
def readOctets : Nat → List Char → Option (List UInt8 × List Char)
  | 0, cs => some ([], cs)
  | n + 1, cs => do
    let (b, cs) ← readOctet cs
    if b / 64 = 2 then
      let (bs, cs) ← readOctets n cs
      return (.ofNat b :: bs, cs)
    else none

/-- The bytes of a character, each of them escaped. -/
def readEscaped (cs : List Char) : Option (List UInt8 × List Char) := do
  let (b, cs) ← readOctet cs
  let (bs, cs) ← readOctets (← following? b) cs
  return (.ofNat b :: bs, cs)

/-- The bytes of a tag of at most `n` characters. -/
def readUriBytes (verbatim : Bool) : Nat → List Char → Option (List UInt8 × List Char)
  | 0, cs => some ([], cs)
  | n + 1, cs =>
    match cs with
    | [] => some ([], [])
    | c :: r =>
      if c = '%' then do
        let (e, r) ← readEscaped cs
        let (uri, r) ← readUriBytes verbatim n r
        return (e ++ uri, r)
      else if isUriChar verbatim c then do
        let (uri, r) ← readUriBytes verbatim n r
        return (c.toUInt8 :: uri, r)
      else some ([], cs)

def readUri (verbatim : Bool) (c : Cursor) : Option (List UInt8 × Cursor) := do
  let (uri, rest) ← readUriBytes verbatim c.budget c.rest
  return (uri, c.skip (c.rest.length - rest.length))

/-- Handle and suffix of a tag, at its exclamation mark. A lone mark is its own suffix. -/
def readParts (c : Cursor) : Option (List Char × Tag × Cursor) :=
  match c.rest with
  | _ :: '<' :: _ => do
    let (uri, c) ← readUri true (c.skip 2)
    if uri.isEmpty || c.rest.head? != some '>' then none else some ([], ofBytes uri, c.skip)
  | _ => do
    let (handle, c) := readHandle c
    if 1 < handle.length ∧ handle.getLast? = some '!' then
      let (uri, c) ← readUri false c
      if uri.isEmpty then none else some (handle, ofBytes uri, c)
    else
      let (uri, c) ← readUri false c
      let suffix := ofBytes ((handle.drop 1).map Char.toUInt8 ++ uri)
      if suffix.isEmpty then some ([], [bang], c) else some (['!'], suffix, c)

end Tag

end ZodGraph.Yaml
