import ZodGraph.Double
import ZodGraph.Json.Error

/-!
The pieces of JSON text: blanks, words, strings and numbers. Each reader takes the rest of the
text and gives what it read with what is left.
-/

namespace ZodGraph.Json

def isBlank (c : Char) : Bool := c = ' ' || c = '\n' || c = '\t' || c = '\r'

def skipBlanks (cs : List Char) : List Char := cs.dropWhile isBlank

/-- The rest of a word whose first letter is read. -/
def word : List Char → List Char → Except TextError (List Char)
  | [], cs => .ok cs
  | _ :: _, [] => .error .eofValue
  | w :: ws, c :: cs => if c = w then word ws cs else .error .expectedIdent

def hexDigit? (c : Char) : Option Nat :=
  if '0' ≤ c ∧ c ≤ '9' then some (c.toNat - 48)
  else if 'a' ≤ c ∧ c ≤ 'f' then some (c.toNat - 87)
  else if 'A' ≤ c ∧ c ≤ 'F' then some (c.toNat - 55)
  else none

def hexUnit? (a b c d : Char) : Option Nat := do
  return (((← hexDigit? a) * 16 + (← hexDigit? b)) * 16 + (← hexDigit? c)) * 16 + (← hexDigit? d)

def isHighSurrogate (n : Nat) : Bool := 0xd800 ≤ n && n ≤ 0xdbff

def isLowSurrogate (n : Nat) : Bool := 0xdc00 ≤ n && n ≤ 0xdfff

/-- A hex escape needs four bytes; with fewer left the text has ended, else one is no digit. -/
def shortHex (cs : List Char) : TextError :=
  if (String.ofList cs).utf8ByteSize < 4 then .eofString else .invalidEscape

def simpleEscape? (c : Char) : Option Char :=
  match c with
  | '"' => some '"'
  | '\\' => some '\\'
  | '/' => some '/'
  | 'b' => some '\x08'
  | 'f' => some '\x0c'
  | 'n' => some '\n'
  | 'r' => some '\r'
  | 't' => some '\t'
  | _ => none

/-- Puts a character in front of what a reader gave. -/
def push (c : Char) (r : Except TextError (List Char × List Char)) :
    Except TextError (List Char × List Char) :=
  r.map fun (s, rest) => (c :: s, rest)

/-- The rest of a string whose opening quote is read. -/
def string : List Char → Except TextError (List Char × List Char)
  | [] => .error .eofString
  | '"' :: r => .ok ([], r)
  | '\\' :: 'u' :: a :: b :: c :: d :: r =>
    match hexUnit? a b c d with
    | none => .error .invalidEscape
    | some n =>
      if isLowSurrogate n then .error .loneSurrogate
      else if isHighSurrogate n then
        match r with
        | [] => .error .eofString
        | ['\\'] => .error .eofString
        | '\\' :: 'u' :: e :: f :: g :: h :: r' =>
          match hexUnit? e f g h with
          | none => .error .invalidEscape
          | some m =>
            if isLowSurrogate m then
              push (Char.ofNat ((n - 0xd800) * 0x400 + (m - 0xdc00) + 0x10000)) (string r')
            else .error .loneSurrogate
        | '\\' :: 'u' :: r' => .error (shortHex r')
        | _ => .error .endOfHexEscape
      else push (Char.ofNat n) (string r)
  | '\\' :: 'u' :: r => .error (shortHex r)
  | '\\' :: c :: r =>
    match simpleEscape? c with
    | some e => push e (string r)
    | none => .error .invalidEscape
  | ['\\'] => .error .eofString
  | c :: r => if c.toNat < 32 then .error .controlCharacter else push c (string r)

/-- Passes over a string whose opening quote is read; surrogates need not pair up. -/
def skipString : List Char → Except TextError (List Char)
  | [] => .error .eofString
  | '"' :: r => .ok r
  | '\\' :: 'u' :: a :: b :: c :: d :: r =>
    if (hexUnit? a b c d).isSome then skipString r else .error .invalidEscape
  | '\\' :: 'u' :: r => .error (shortHex r)
  | '\\' :: c :: r =>
    if (simpleEscape? c).isSome then skipString r else .error .invalidEscape
  | ['\\'] => .error .eofString
  | c :: r => if c.toNat < 32 then .error .controlCharacter else skipString r

def digit? (c : Char) : Option Nat :=
  if '0' ≤ c ∧ c ≤ '9' then some (c.toNat - 48) else none

def isDigit (c : Char) : Bool := (digit? c).isSome

/-- Extends a number by the digits that follow while it stays at most `limit`; gives the number,
how many digits were taken and the rest. -/
def takeDigits (limit : Nat) : Nat → List Char → Nat × Nat × List Char
  | n, [] => (n, 0, [])
  | n, c :: cs =>
    match digit? c with
    | none => (n, 0, c :: cs)
    | some d =>
      if limit < n * 10 + d then (n, 0, c :: cs)
      else
        let (m, k, r) := takeDigits limit (n * 10 + d) cs
        (m, k + 1, r)

/-- The number of digits in front and the rest after them. -/
def dropDigits (cs : List Char) : Nat × List Char :=
  ((cs.takeWhile isDigit).length, cs.dropWhile isDigit)

def maxSignificand : Nat := 18446744073709551615

def maxExponent : Nat := 2147483647

/-- A power of ten as a double, for exponents up to 308. -/
def powerOfTen (n : Nat) : Double := .ofRatio (Double.pow10 n) 1

def signed (negative : Bool) (x : Double) : Double := if negative then x.neg else x

/-- The significand becomes a double and is then scaled by one power of ten, in two steps below
`1e-308`, rounding each time. -/
def scaled (negative : Bool) (significand : Nat) (exp : Int) : Except TextError Double :=
  let f := Double.ofNat significand
  if significand = 0 then .ok (signed negative f)
  else if 308 < exp then .error .numberOutOfRange
  else if 0 ≤ exp then
    let x := f.mul (powerOfTen exp.toNat)
    if x.isFinite then .ok (signed negative x) else .error .numberOutOfRange
  else if -308 ≤ exp then .ok (signed negative (f.div (powerOfTen (-exp).toNat)))
  else if -616 ≤ exp then
    .ok (signed negative ((f.div (powerOfTen 308)).div (powerOfTen (-exp - 308).toNat)))
  else .ok (signed negative .zero)

/-- The part of a number after its `e`. -/
def exponentPart (negative : Bool) (significand : Nat) (exp : Int) (cs : List Char) :
    Except TextError (Double × List Char) :=
  let (down, cs) := match cs with
    | '+' :: r => (false, r)
    | '-' :: r => (true, r)
    | r => (false, r)
  match cs with
  | [] => .error .eofValue
  | c :: _ =>
    if isDigit c then
      let (e, _, r) := takeDigits maxExponent 0 cs
      let (extra, r) := dropDigits r
      if 0 < extra then
        if significand ≠ 0 ∧ ¬ down then .error .numberOutOfRange
        else .ok (signed negative .zero, r)
      else
        (scaled negative significand (if down then exp - e else exp + e)).map fun x => (x, r)
    else .error .invalidNumber

/-- What may follow the digits of a fraction or of a long integer. -/
def afterDigits (negative : Bool) (significand : Nat) (exp : Int) (cs : List Char) :
    Except TextError (Double × List Char) :=
  match cs with
  | 'e' :: r | 'E' :: r => exponentPart negative significand exp r
  | r => (scaled negative significand exp).map fun x => (x, r)

/-- The part of a number after its point. Digits that no longer fit the significand are dropped. -/
def fractionPart (negative : Bool) (significand : Nat) (exp : Int) (cs : List Char) :
    Except TextError (Double × List Char) :=
  let (n, used, r) := takeDigits maxSignificand significand cs
  let (extra, r) := dropDigits r
  if used = 0 ∧ extra = 0 then
    match r with
    | [] => .error .eofValue
    | _ => .error .invalidNumber
  else afterDigits negative n (exp - used) r

/-- A whole number as read: `-0` and what fits no 64 bit integer are doubles. -/
def wholeNumber (negative : Bool) (n : Nat) : Json :=
  if negative then
    if n = 0 ∨ maxInt + 1 < n then num (Double.ofNat n).neg else int (-(n : Int))
  else int n

/-- The digits of a number and all that follows them. -/
def unsignedNumber (negative : Bool) (cs : List Char) : Except TextError (Json × List Char) :=
  let (n, _, r) := takeDigits maxSignificand 0 cs
  let (extra, r) := dropDigits r
  match r with
  | '.' :: r => (fractionPart negative n extra r).map fun (x, r) => (num x, r)
  | 'e' :: r | 'E' :: r => (exponentPart negative n extra r).map fun (x, r) => (num x, r)
  | r =>
    if extra = 0 then .ok (wholeNumber negative n, r)
    else (scaled negative n extra).map fun x => (num x, r)

/-- A number whose sign is read. -/
def number (negative : Bool) (cs : List Char) : Except TextError (Json × List Char) :=
  match cs with
  | [] => .error .eofValue
  | '0' :: c :: _ => if isDigit c then .error .invalidNumber else unsignedNumber negative cs
  | c :: _ => if isDigit c then unsignedNumber negative cs else .error .invalidNumber

/-- Passes over the exponent of a number after its `e`. -/
def skipExponent (cs : List Char) : Except TextError (List Char) :=
  let cs := match cs with
    | '+' :: r | '-' :: r => r
    | r => r
  match dropDigits cs with
  | (0, _) => .error .invalidNumber
  | (_, r) => .ok r

/-- Passes over the fraction of a number after its point. -/
def skipFraction (cs : List Char) : Except TextError (List Char) :=
  match dropDigits cs with
  | (0, _) => .error .invalidNumber
  | (_, 'e' :: r) | (_, 'E' :: r) => skipExponent r
  | (_, r) => .ok r

/-- Passes over a number whose sign is read, whatever its size. -/
def skipNumber (cs : List Char) : Except TextError (List Char) :=
  let rest (cs : List Char) : Except TextError (List Char) :=
    match cs with
    | '.' :: r => skipFraction r
    | 'e' :: r | 'E' :: r => skipExponent r
    | r => .ok r
  match cs with
  | '0' :: c :: r => if isDigit c then .error .invalidNumber else rest (c :: r)
  | cs =>
    match dropDigits cs with
    | (0, _) => .error .invalidNumber
    | (_, r) => rest r

end ZodGraph.Json
