/-!
A place in YAML text, and the characters that matter there.
-/

namespace ZodGraph.Yaml

/-- Characters that YAML text may hold. -/
def isAllowed (c : Char) : Bool :=
  let n := c.toNat
  n == 0x09 || n == 0x0a || n == 0x0d || (0x20 ≤ n && n ≤ 0x7e) || n == 0x85
    || (0xa0 ≤ n && n ≤ 0xd7ff) || (0xe000 ≤ n && n ≤ 0xfffd) || 0x10000 ≤ n

/-- How many bytes of a text are looked over at once. -/
def blockSize : Nat := 16384

/-- The characters that fit in `n` bytes, and the rest. -/
def splitBytes : Nat → List Char → List Char × List Char
  | _, [] => ([], [])
  | n, c :: cs =>
    if c.utf8Size ≤ n then
      let (front, rest) := splitBytes (n - c.utf8Size) cs
      (c :: front, rest)
    else ([], c :: cs)

/-- The text in front of the first block with a character that may not be there, and whether
there is such a block. At most `n` blocks are looked over. -/
def soundPart : Nat → List Char → List Char × Bool
  | 0, _ => ([], true)
  | _ + 1, [] => ([], false)
  | n + 1, cs =>
    let (block, rest) := splitBytes blockSize cs
    if block.all isAllowed then
      let (sound, cut) := soundPart n rest
      (block ++ sound, cut)
    else ([], true)

def isBreak (c : Char) : Bool :=
  c = '\n' || c = '\r' || c = '\u0085' || c = '\u2028' || c = '\u2029'

def isBlank (c : Char) : Bool := c = ' ' || c = '\t'

def isGap (c : Char) : Bool := isBlank c || isBreak c

/-- Letters of anchors, tag handles and directives. -/
def isWordChar (c : Char) : Bool := c.isAlphanum || c = '_' || c = '-'

/-- A break or the end comes next. -/
def atBreak : List Char → Bool
  | [] => true
  | c :: _ => isBreak c

/-- A blank, a break or the end comes next. -/
def atGap : List Char → Bool
  | [] => true
  | c :: _ => isGap c

/-- One of the given characters comes next. -/
def atAny (set : List Char) : List Char → Bool
  | [] => false
  | c :: _ => set.contains c

/-- Three dashes or three dots that stand alone, which part documents at the start of a line. -/
def atMarker : List Char → Bool
  | '-' :: '-' :: '-' :: cs => atGap cs
  | '.' :: '.' :: '.' :: cs => atGap cs
  | _ => false

/-- How many bytes the characters take. -/
def byteLength (cs : List Char) : Nat := cs.foldl (fun n c => n + c.utf8Size) 0

/-- The text that is left, and the bytes, lines and columns passed. -/
structure Cursor where
  rest : List Char
  /-- At least as much as there is left, which bounds all reading. -/
  budget : Nat
  index : Nat := 0
  line : Nat := 0
  column : Nat := 0
deriving Inhabited

namespace Cursor

/-- Passes `n` characters of a line. -/
def skip (c : Cursor) (n : Nat := 1) : Cursor :=
  { c with
    rest := c.rest.drop n
    index := c.index + byteLength (c.rest.take n)
    column := c.column + n }

def skipWhile (c : Cursor) (p : Char → Bool) : Cursor := c.skip (c.rest.takeWhile p).length

/-- Passes `n` characters that end a line. -/
def newLine (c : Cursor) (n : Nat) : Cursor :=
  { c.skip n with line := c.line + 1, column := 0 }

/-- The end of the text ends a line that has something on it. -/
def endLine (c : Cursor) : Cursor :=
  if c.column = 0 then c else c.newLine 0

/-- Passes a break, of which a carriage return and a line feed make one. -/
def skipBreak (c : Cursor) : Cursor :=
  match c.rest with
  | '\r' :: '\n' :: _ => c.newLine 2
  | b :: _ => if isBreak b then c.newLine 1 else c
  | [] => c

/-- The break that comes next as it counts in a text; most are line feeds. -/
def breakText (c : Cursor) : List Char :=
  match c.rest with
  | [] => []
  | b :: _ =>
    if b = '\u2028' ∨ b = '\u2029' then [b]
    else if isBreak b then ['\n']
    else []

def skipComment (c : Cursor) : Cursor :=
  if c.rest.head? = some '#' then c.skipWhile (!isBreak ·) else c

/-- A marker of documents stands here. -/
def onMarker (c : Cursor) : Bool := c.column == 0 && atMarker c.rest

/-- The start of a text. -/
def ofText (cs : List Char) : Cursor := { rest := cs, budget := cs.length + 1 }

end Cursor

end ZodGraph.Yaml
