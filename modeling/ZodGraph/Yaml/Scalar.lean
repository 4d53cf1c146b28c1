import ZodGraph.Yaml.Cursor

/-!
Scalars: plain, in quotes, and in blocks. Line breaks inside plain and quoted text fold: one
break is a space, and of more the first is dropped. The readers give nothing where the text is
malformed.
-/

namespace ZodGraph.Yaml

/-- Blanks and breaks between two words. -/
structure Gap where
  /-- Blanks in front of the first break. -/
  blanks : List Char := []
  /-- The first break, if there is one. -/
  first : List Char := []
  /-- Later breaks. -/
  more : List Char := []
  broken : Bool := false
deriving Inhabited

namespace Gap

/-- What the gap stands for. -/
def text (g : Gap) : List Char :=
  if g.broken then
    if g.first = ['\n'] then if g.more.isEmpty then [' '] else g.more
    else g.first ++ g.more
  else g.blanks

def addBlank (g : Gap) (c : Char) : Gap :=
  if g.broken then g else { g with blanks := g.blanks ++ [c] }

def addBreak (g : Gap) (b : List Char) : Gap :=
  if g.broken then { g with more := g.more ++ b }
  else { g with first := b, broken := true }

end Gap

/-- Reads a gap of at most `n` characters. Behind a break a tab is refused in front of the
column that the text has to reach. -/
def readGap (least : Int) : Nat → Gap → Cursor → Option (Gap × Cursor)
  | 0, g, c => some (g, c)
  | n + 1, g, c =>
    match c.rest with
    | [] => some (g, c)
    | b :: _ =>
      if isBlank b then
        if g.broken ∧ b = '\t' ∧ (c.column : Int) < least then none
        else readGap least n (g.addBlank b) c.skip
      else if isBreak b then readGap least n (g.addBreak c.breakText) c.skipBreak
      else some (g, c)

/-- A word of plain text. In a flow collection brackets and commas end it. -/
def plainWord (flow : Bool) : List Char → Option (List Char)
  | [] => some []
  | c :: cs =>
    if isGap c then some []
    else if flow ∧ c = ':' ∧ atAny [',', '?', '[', ']', '\x7b', '\x7d'] cs then none
    else if (c = ':' ∧ atGap cs) ∨ (flow ∧ [',', '[', ']', '\x7b', '\x7d'].contains c) then some []
    else (plainWord flow cs).map (c :: ·)

/-- Chunks of text, the last one first. -/
abbrev Chunks := List (List Char)

def Chunks.text (ps : Chunks) : String := String.ofList ps.reverse.flatten

/-- Plain text of at most `n` words. The result says whether it ends behind a break. -/
def readPlainFrom (flow : Bool) (least : Int) :
    Nat → Chunks → Gap → Cursor → Option (Chunks × Bool × Cursor)
  | 0, text, gap, c => some (text, gap.broken, c)
  | n + 1, text, gap, c =>
    if c.onMarker || c.rest.head? = some '#' then some (text, gap.broken, c)
    else do
      let word ← plainWord flow c.rest
      let c := c.skip word.length
      let (text, gap) := if word.isEmpty then (text, gap) else (word :: gap.text :: text, {})
      if c.rest.isEmpty || !atGap c.rest then return (text, gap.broken, c)
      let (gap, c) ← readGap least c.budget gap c
      if !flow ∧ (c.column : Int) < least then return (text, gap.broken, c)
      readPlainFrom flow least n text gap c

def readPlain (flow : Bool) (least : Int) (c : Cursor) : Option (String × Bool × Cursor) := do
  let (text, broken, c) ← readPlainFrom flow least c.budget [] {} c
  return (text.text, broken, c)

def hexValue? (c : Char) : Option Nat :=
  if '0' ≤ c ∧ c ≤ '9' then some (c.toNat - '0'.toNat)
  else if 'a' ≤ c ∧ c ≤ 'f' then some (c.toNat - 'a'.toNat + 10)
  else if 'A' ≤ c ∧ c ≤ 'F' then some (c.toNat - 'A'.toNat + 10)
  else none

/-- The number that `n` hexadecimal digits stand for, and what follows them. -/
def hexNumber? : Nat → Nat → List Char → Option (Nat × List Char)
  | 0, acc, cs => some (acc, cs)
  | _ + 1, _, [] => none
  | n + 1, acc, c :: cs => do hexNumber? n (16 * acc + (← hexValue? c)) cs

/-- The character with the given code, unless it is half of a surrogate pair or too large. -/
def scalarChar? (n : Nat) : Option Char :=
  if (0xd800 ≤ n ∧ n ≤ 0xdfff) ∨ 0x10ffff < n then none else some (Char.ofNat n)

/-- What a backslash and the given character stand for. -/
def simpleEscape? : Char → Option Char
  | '0' => some '\x00'
  | 'a' => some '\x07'
  | 'b' => some '\x08'
  | 't' => some '\t'
  | '\t' => some '\t'
  | 'n' => some '\n'
  | 'v' => some '\x0b'
  | 'f' => some '\x0c'
  | 'r' => some '\r'
  | 'e' => some '\x1b'
  | ' ' => some ' '
  | '"' => some '"'
  | '/' => some '/'
  | '\\' => some '\\'
  | 'N' => some '\u0085'
  | '_' => some '\u00a0'
  | 'L' => some '\u2028'
  | 'P' => some '\u2029'
  | _ => none

/-- How many digits follow an escape for a code. -/
def codeLength? : Char → Option Nat
  | 'x' => some 2
  | 'u' => some 4
  | 'U' => some 8
  | _ => none

/-- The character of an escape whose backslash has been passed. -/
def readEscape : List Char → Option (Char × List Char)
  | [] => none
  | c :: cs =>
    match codeLength? c with
    | none => (simpleEscape? c).map fun e => (e, cs)
    | some n => do
      let (code, rest) ← hexNumber? n 0 cs
      return (← scalarChar? code, rest)

/-- What a word stands for, and how many characters it takes. -/
structure Word where
  text : List Char := []
  width : Nat := 0

/-- Puts a character that takes `n` in front. -/
def Word.push (w : Word) (c : Char) (n : Nat) : Word := ⟨c :: w.text, w.width + n⟩

/-- A word in single quotes, where a quote is written twice. -/
def singleWord : List Char → Word
  | '\'' :: '\'' :: cs => (singleWord cs).push '\'' 2
  | '\'' :: _ => {}
  | c :: cs => if isGap c then {} else (singleWord cs).push c 1
  | [] => {}

/-- A word in double quotes, of at most `n` characters. It ends in front of a backslash at the
end of a line. -/
def doubleWord : Nat → List Char → Option Word
  | 0, _ => some {}
  | n + 1, cs =>
    match cs with
    | [] => some {}
    | '"' :: _ => some {}
    | '\\' :: r =>
      match r with
      | [] => none
      | b :: _ =>
        if isBreak b then some {}
        else do
          let (c, rest) ← readEscape r
          return (← doubleWord n rest).push c (2 + (codeLength? b).getD 0)
    | c :: r => if isGap c then some {} else (doubleWord n r).map (·.push c 1)

/-- A backslash at the end of a line joins it to the next. -/
def skipJoin (c : Cursor) : Option Cursor :=
  match c.rest with
  | '\\' :: b :: _ => if isBreak b then some c.skip.skipBreak else none
  | _ => none

/-- Quoted text behind its first quote, of at most `n` words. -/
def readQuotedFrom (single : Bool) : Nat → Chunks → Cursor → Option (Chunks × Cursor)
  | 0, _, _ => none
  | n + 1, text, c =>
    if c.onMarker || c.rest.isEmpty then none
    else do
      let word ← if single then some (singleWord c.rest) else doubleWord c.budget c.rest
      let c := c.skip word.width
      let text := word.text :: text
      if c.rest.head? = some (if single then '\'' else '"') then return (text, c.skip)
      let (gap, c) :=
        match (if single then none else skipJoin c) with
        | some c => (({ broken := true } : Gap), c)
        | none => ({}, c)
      let (gap, c) ← readGap (-1) c.budget gap c
      readQuotedFrom single n (gap.text :: text) c

/-- Quoted text, at its first quote. -/
def readQuoted (single : Bool) (c : Cursor) : Option (String × Cursor) := do
  let (text, c) ← readQuotedFrom single c.budget [] c.skip
  return (text.text, c)

/-- What becomes of the breaks at the end of a block. -/
inductive Chomping where
  | strip
  | clip
  | keep
deriving DecidableEq

def chomping? : Char → Option Chomping
  | '+' => some .keep
  | '-' => some .strip
  | _ => none

/-- An indentation from 1 to 9; zero is refused. -/
def readIncrement (c : Cursor) : Option (Option Nat × Cursor) :=
  match c.rest with
  | d :: _ =>
    if d = '0' then none
    else if '1' ≤ d ∧ d ≤ '9' then some (some (d.toNat - '0'.toNat), c.skip)
    else some (none, c)
  | [] => some (none, c)

def readChomping (c : Cursor) : Option Chomping × Cursor :=
  match c.rest.head?.bind chomping? with
  | some k => (some k, c.skip)
  | none => (none, c)

/-- The signs behind the start of a block, in either order. -/
def readBlockHeader (c : Cursor) : Option (Chomping × Option Nat × Cursor) :=
  match readChomping c with
  | (some k, c) => do
    let (increment, c) ← readIncrement c
    return (k, increment, c)
  | (none, c) => do
    let (increment, c) ← readIncrement c
    match increment with
    | none => return (.clip, none, c)
    | some n =>
      let (k, c) := readChomping c
      return (k.getD .clip, some n, c)

/-- Empty lines of a block and the indentation of the line behind them: what the breaks stand
for and the widest indentation met. Zero as the indentation says that it is not known yet. -/
def readBlockBreaks (indent : Nat) :
    Nat → List Char → Nat → Cursor → Option (List Char × Nat × Cursor)
  | 0, breaks, widest, c => some (breaks, widest, c)
  | n + 1, breaks, widest, c =>
    let spaces := (c.rest.takeWhile (· = ' ')).length
    let c := c.skip (if indent = 0 then spaces else min spaces (indent - c.column))
    let widest := max widest c.column
    if (indent = 0 ∨ c.column < indent) ∧ c.rest.head? = some '\t' then none
    else if !c.rest.isEmpty ∧ atBreak c.rest then
      readBlockBreaks indent n (breaks ++ c.breakText) widest c.skipBreak
    else some (breaks, widest, c)

/-- The lines of a block, at most `n`. A folded break is a space between two lines that both
start without a blank. -/
def readBlockLines (literal : Bool) (indent : Nat) (chomp : Chomping) :
    Nat → Chunks → List Char → List Char → Bool → Cursor → Option (Chunks × Cursor)
  | 0, _, _, _, _, _ => none
  | n + 1, text, lineBreak, breaks, afterBlank, c =>
    if c.column = indent ∧ !c.rest.isEmpty then
      let blank := c.rest.head?.any isBlank
      let joint :=
        if !literal ∧ lineBreak = ['\n'] ∧ !afterBlank ∧ !blank then
          if breaks.isEmpty then [' '] else []
        else lineBreak
      let line := c.rest.takeWhile (!isBreak ·)
      let text := line :: breaks :: joint :: text
      let c := c.skip line.length
      let lineBreak := c.breakText
      let c := c.skipBreak
      match readBlockBreaks indent c.budget [] 0 c with
      | none => none
      | some (breaks, _, c) => readBlockLines literal indent chomp n text lineBreak breaks blank c
    else
      let text := if chomp = .strip then text else lineBreak :: text
      some (if chomp = .keep then breaks :: text else text, c)

/-- The text of a block, at its first sign. The indentation is that of the block around it. -/
def readBlock (literal : Bool) (outer : Int) (c : Cursor) : Option (String × Cursor) := do
  let (chomp, increment, c) ← readBlockHeader c.skip
  let c := (c.skipWhile isBlank).skipComment
  if !atBreak c.rest then none
  else
    let c := c.skipBreak
    let given : Nat := match increment with
      | none => 0
      | some n => if 0 ≤ outer then outer.toNat + n else n
    let (breaks, widest, c) ← readBlockBreaks given c.budget [] 0 c
    let indent := if given = 0 then max (max widest (outer + 1).toNat) 1 else given
    let (text, c) ← readBlockLines literal indent chomp (c.budget + 1) [] [] breaks false c
    return (text.text, c)

end ZodGraph.Yaml
