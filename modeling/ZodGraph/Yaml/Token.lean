import ZodGraph.Yaml.Tag

/-!
Tokens of YAML text. Indentation becomes tokens that open and close blocks. A key without a sign
of its own shows only at its colon, so a place where one may start leaves a slot in front of its
token. The token waits until the slot is filled or given up, and if the text turns out to be
malformed before that, the token is lost with it.
-/

namespace ZodGraph.Yaml

inductive Token where
  | versionDirective (major minor : Nat)
  | tagDirective (handle : String) (start : Tag)
  | documentStart
  | documentEnd
  | streamEnd
  | blockSequenceStart
  | blockMappingStart
  | blockEnd
  | flowSequenceStart
  | flowSequenceEnd
  | flowMappingStart
  | flowMappingEnd
  | blockEntry
  | flowEntry
  | key
  | value
  | alias (name : String)
  | anchor (name : String)
  | tag (handle : String) (suffix : Tag)
  | scalar (text : String) (plain : Bool)
  /-- Text that is no token; nothing follows it. -/
  | malformed
deriving DecidableEq, Inhabited

/-! ### Anchors, tags and directives -/

/-- The name of an anchor or alias, at its sign. -/
def readAnchor (c : Cursor) : Option (String × Cursor) :=
  let name := c.skip.rest.takeWhile isWordChar
  let c := c.skip (name.length + 1)
  if name.isEmpty then none
  else if atGap c.rest || atAny ['?', ':', ',', ']', '\x7d', '%', '@', '\x60'] c.rest then
    some (String.ofList name, c)
  else none

def readTag (flow : Bool) (c : Cursor) : Option (Token × Cursor) := do
  let (handle, suffix, c) ← Tag.readParts c
  if atGap c.rest || (flow && c.rest.head? == some ',') then
    return (.tag (String.ofList handle) suffix, c)
  else none

/-- A number of at most nine digits. -/
def readVersionNumber (c : Cursor) : Option (Nat × Cursor) :=
  let digits := c.rest.takeWhile Char.isDigit
  if digits.isEmpty ∨ 9 < digits.length then none
  else some (digits.foldl (fun n d => 10 * n + (d.toNat - '0'.toNat)) 0, c.skip digits.length)

def readVersion (c : Cursor) : Option (Token × Cursor) := do
  let (major, c) ← readVersionNumber (c.skipWhile isBlank)
  if c.rest.head? = some '.' then
    let (minor, c) ← readVersionNumber c.skip
    return (.versionDirective major minor, c)
  else none

def readTagDirective (c : Cursor) : Option (Token × Cursor) := do
  let c := c.skipWhile isBlank
  if c.rest.head? != some '!' then none
  else
    let (handle, c) := Tag.readHandle c
    if handle.getLast? != some '!' || !c.rest.head?.any isBlank then none
    else
      let (uri, c) ← Tag.readUri true (c.skipWhile isBlank)
      if uri.isEmpty || !atGap c.rest then none
      else return (.tagDirective (String.ofList handle) (Tag.ofBytes uri), c)

/-- A directive, at its percent sign, with the line it is on. -/
def readDirective (c : Cursor) : Option (Token × Cursor) := do
  let name := c.skip.rest.takeWhile isWordChar
  let c := c.skip (name.length + 1)
  if !atGap c.rest then none
  else
    let (token, c) ←
      if name = ['Y', 'A', 'M', 'L'] then readVersion c
      else if name = ['T', 'A', 'G'] then readTagDirective c
      else none
    let c := (c.skipWhile isBlank).skipComment
    if atBreak c.rest then return (token, c.skipBreak) else none

/-! ### The scanner -/

/-- A place where a key may have started. -/
structure PossibleKey where
  slot : Nat
  /-- Nothing but a key can stand there. -/
  required : Bool
  start : Cursor

/-- A token, or a slot for a key. -/
inductive Piece where
  | token (t : Token)
  | slot (n : Nat)
deriving DecidableEq

structure Scanner where
  cursor : Cursor
  /-- The text goes on, but with what may not be there. -/
  cut : Bool := false
  /-- What has been read and waits to be taken. -/
  queue : List Piece := []
  /-- Column of the innermost block. -/
  indent : Int := -1
  outerIndents : List Int := []
  /-- A key may start here. -/
  keyAllowed : Bool := true
  /-- The possible key of each open flow collection, and last that of the block. -/
  keys : List (Option PossibleKey) := [none]
  nextSlot : Nat := 0

namespace Scanner

def inFlow (s : Scanner) : Bool := 1 < s.keys.length

def add (s : Scanner) (t : Token) : Scanner := { s with queue := s.queue ++ [.token t] }

def move (s : Scanner) (c : Cursor) : Scanner := { s with cursor := c }

def allowKey (s : Scanner) (b : Bool) : Scanner := { s with keyAllowed := b }

/-- Puts tokens in the place of a slot. -/
def fill (s : Scanner) (slot : Nat) (ts : List Token) : Scanner :=
  { s with queue := s.queue.flatMap fun p => if p = .slot slot then ts.map .token else [p] }

/-- A byte order mark may start a line. -/
def skipMark (c : Cursor) : Cursor :=
  if c.column = 0 ∧ c.rest.head? = some '\ufeff' then c.skip else c

/-- Passes blanks, comments and breaks. Tabs do not indent a key. -/
def skipSpace : Nat → Scanner → Scanner
  | 0, s => s
  | n + 1, s =>
    let tabs := s.inFlow || !s.keyAllowed
    let c := (skipMark s.cursor).skipWhile fun ch => ch = ' ' || (tabs && ch = '\t')
    let c := c.skipComment
    if !c.rest.isEmpty ∧ atBreak c.rest then
      let s := s.move c.skipBreak
      skipSpace n (if s.inFlow then s else s.allowKey true)
    else s.move c

/-- A key fits on a line and in 1024 bytes. -/
def isStale (c : Cursor) (k : PossibleKey) : Bool :=
  k.start.line < c.line || k.start.index + 1024 < c.index

/-- Gives up possible keys that are too far back. -/
def dropStale (s : Scanner) : Option Scanner :=
  let stale := s.keys.filterMap fun key => key.filter (isStale s.cursor)
  if stale.any (·.required) then none
  else
    let keys := s.keys.map fun key => key.filter (!isStale s.cursor ·)
    some (stale.foldl (fun s k => s.fill k.slot []) { s with keys })

/-- Gives up the innermost possible key. -/
def dropKey (s : Scanner) : Option Scanner :=
  match s.keys with
  | some k :: ks => if k.required then none else some ({ s with keys := none :: ks }.fill k.slot [])
  | _ => some s

/-- Leaves a slot where a key may start. -/
def offerKey (s : Scanner) : Option Scanner :=
  if s.keyAllowed then do
    let required := !s.inFlow && s.indent == s.cursor.column
    let s ← s.dropKey
    let k : PossibleKey := ⟨s.nextSlot, required, s.cursor⟩
    return { s with
      keys := some k :: s.keys.drop 1
      nextSlot := s.nextSlot + 1
      queue := s.queue ++ [.slot s.nextSlot] }
  else some s

/-- Closes the blocks that start behind the column. -/
def unroll (column : Int) : List Int → Scanner → Scanner
  | [], s => s
  | outer :: more, s =>
    if column < s.indent then
      unroll column more { s.add .blockEnd with indent := outer, outerIndents := more }
    else s

def unrollTo (s : Scanner) (column : Int) : Scanner :=
  if s.inFlow then s else unroll column s.outerIndents s

/-- Notes a block at the column; it is new if it is further in than the last. -/
def roll (s : Scanner) (column : Int) : Bool × Scanner :=
  if !s.inFlow ∧ s.indent < column then
    (true, { s with indent := column, outerIndents := s.indent :: s.outerIndents })
  else (false, s)

/-- Notes a block that starts here with the given token. -/
def rollHere (s : Scanner) (t : Token) : Scanner :=
  match s.roll s.cursor.column with
  | (true, s) => s.add t
  | (false, s) => s

/-- Ends all blocks of a document. -/
def endBlocks (s : Scanner) : Option Scanner := do
  let s ← (s.unrollTo (-1)).dropKey
  return s.allowKey false

def endStream (s : Scanner) : Option Scanner := do
  return (← (s.move s.cursor.endLine).endBlocks).add .streamEnd

def marker (s : Scanner) (t : Token) : Option Scanner := do
  let s ← s.endBlocks
  return (s.move (s.cursor.skip 3)).add t

def directive (s : Scanner) : Option Scanner := do
  let s ← s.endBlocks
  let (t, c) ← readDirective s.cursor
  return (s.move c).add t

def openFlow (s : Scanner) (t : Token) : Option Scanner := do
  let s ← s.offerKey
  return { (s.move s.cursor.skip).add t with keys := none :: s.keys, keyAllowed := true }

def closeFlow (s : Scanner) (t : Token) : Option Scanner := do
  let s ← s.dropKey
  let s := if s.inFlow then { s with keys := s.keys.drop 1 } else s
  return ((s.move s.cursor.skip).add t).allowKey false

def flowEntry (s : Scanner) : Option Scanner := do
  let s ← s.dropKey
  return ((s.move s.cursor.skip).add .flowEntry).allowKey true

def blockEntry (s : Scanner) : Option Scanner :=
  if !s.inFlow ∧ !s.keyAllowed then none
  else do
    let s ← (s.rollHere .blockSequenceStart).dropKey
    return ((s.move s.cursor.skip).add .blockEntry).allowKey true

def explicitKey (s : Scanner) : Option Scanner :=
  if !s.inFlow ∧ !s.keyAllowed then none
  else do
    let s ← (s.rollHere .blockMappingStart).dropKey
    return ((s.move s.cursor.skip).add .key).allowKey !s.inFlow

/-- A colon makes the innermost possible key one. -/
def value (s : Scanner) : Option Scanner :=
  match s.keys with
  | some k :: ks =>
    let (opens, s) := { s with keys := none :: ks }.roll k.start.column
    let s := s.fill k.slot (if opens then [.blockMappingStart, .key] else [.key])
    some (((s.move s.cursor.skip).add .value).allowKey false)
  | _ =>
    if !s.inFlow ∧ !s.keyAllowed then none
    else
      let s := s.rollHere .blockMappingStart
      some (((s.move s.cursor.skip).add .value).allowKey !s.inFlow)

/-- A token that may be a key or start one. -/
def atom (s : Scanner) (read : Cursor → Option (Token × Cursor)) : Option Scanner := do
  let s ← s.offerKey
  let (t, c) ← read s.cursor
  return ((s.move c).add t).allowKey false

def quoted (s : Scanner) (single : Bool) : Option Scanner :=
  s.atom fun c => (readQuoted single c).map fun r => (.scalar r.1 false, r.2)

def block (s : Scanner) (literal : Bool) : Option Scanner := do
  let s ← s.dropKey
  let (text, c) ← readBlock literal s.indent s.cursor
  return ((s.move c).add (.scalar text false)).allowKey true

/-- Behind a break a key may follow plain text. -/
def plain (s : Scanner) : Option Scanner := do
  let s ← s.offerKey
  let (text, broken, c) ← readPlain s.inFlow (s.indent + 1) s.cursor
  return ((s.move c).add (.scalar text true)).allowKey broken

/-- Characters that start no plain text. -/
def indicators : List Char :=
  ['-', '?', ':', ',', '[', ']', '\x7b', '\x7d', '#', '&', '*', '!', '|', '>', '\'', '"', '%',
    '@', '\x60']

/-- Reads the token that starts with `ch` and goes on with `cs`. -/
def token (s : Scanner) (ch : Char) (cs : List Char) : Option Scanner :=
  let flow := s.inFlow
  if s.cursor.column = 0 ∧ ch = '%' then s.directive
  else if s.cursor.onMarker then s.marker (if ch = '-' then .documentStart else .documentEnd)
  else if ch = '[' then s.openFlow .flowSequenceStart
  else if ch = '\x7b' then s.openFlow .flowMappingStart
  else if ch = ']' then s.closeFlow .flowSequenceEnd
  else if ch = '\x7d' then s.closeFlow .flowMappingEnd
  else if ch = ',' then s.flowEntry
  else if ch = '-' ∧ atGap cs then s.blockEntry
  else if ch = '?' ∧ (flow ∨ atGap cs) then s.explicitKey
  else if ch = ':' ∧ (flow ∨ atGap cs) then s.value
  else if ch = '*' then s.atom fun c => (readAnchor c).map fun r => (.alias r.1, r.2)
  else if ch = '&' then s.atom fun c => (readAnchor c).map fun r => (.anchor r.1, r.2)
  else if ch = '!' then s.atom (readTag flow)
  else if ch = '|' ∧ !flow then s.block true
  else if ch = '>' ∧ !flow then s.block false
  else if ch = '\'' then s.quoted true
  else if ch = '"' then s.quoted false
  else if isGap ch then none
  else if !indicators.contains ch ∨ ch = '-' ∨ (!flow ∧ (ch = '?' ∨ ch = ':')) then s.plain
  else none

/-- No more than `n` characters are left of a text that is cut short. -/
def isShort (s : Scanner) (n : Nat) : Bool := s.cut && (s.cursor.rest.drop n).isEmpty

/-- Reads the text up to the end of a token. Four characters show what starts there, and one
that the token is over. -/
def fetch (s : Scanner) : Option Scanner := do
  let s ← (s.skipSpace s.cursor.budget).dropStale
  let s := s.unrollTo s.cursor.column
  if s.isShort 3 then none
  else
    let s ← match s.cursor.rest with
      | [] => s.endStream
      | ch :: cs => s.token ch cs
    if s.isShort 0 then none else some s

/-- Takes the next token, in at most `n` steps. -/
def next? : Nat → Scanner → Option (Token × Scanner)
  | 0, _ => none
  | n + 1, s =>
    if s.queue.isEmpty then s.fetch.bind (next? n)
    else do
      let s ← s.dropStale
      match s.queue with
      | .token t :: queue => return (t, { s with queue })
      | _ => next? n (← s.fetch)

/-- Takes at most `n` tokens. -/
def tokens : Nat → Scanner → List Token
  | 0, _ => [.malformed]
  | n + 1, s =>
    match s.next? (s.cursor.budget + 2) with
    | none => [.malformed]
    | some (t, s) => if t = .streamEnd then [t] else t :: tokens n s

end Scanner

/-- The tokens of a text. The last one ends the stream or is malformed. -/
def Token.scan (text : String) : List Token :=
  let cs := text.toList
  let (sound, cut) := soundPart (cs.length + 1) cs
  let c := Cursor.ofText sound
  { cursor := c, cut := cut : Scanner }.tokens (8 * c.budget)

end ZodGraph.Yaml
