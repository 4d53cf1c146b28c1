import Mathlib.Data.List.Basic
import Mathlib.Tactic
import ZodGraph.Json.Lexeme

/-!
How an ECMAScript engine reads string literals and the names of properties in the text of a
module. The rules are those of the edition of 2019 and later, where the separators of lines and
paragraphs may stand in a string literal, and those of modules, where escapes by octal digits are
refused. The value of a string is a sequence of 16 bit units.
-/

namespace ZodGraph.Script

open Json (hexDigit? hexUnit?)

/-! ### Strings as units -/

/-- A code point as units: one, or a pair of surrogates. -/
def pointUnits (n : Nat) : List UInt16 :=
  if n < 0x10000 then [.ofNat n]
  else [.ofNat (0xd800 + (n - 0x10000) / 0x400), .ofNat (0xdc00 + (n - 0x10000) % 0x400)]

def charUnits (c : Char) : List UInt16 := pointUnits c.toNat

/-- The value that a string has in a script. -/
def units (s : String) : List UInt16 := s.toList.flatMap charUnits

/-! ### String literals -/

/-- The characters that end a line. -/
def endsLine (c : Char) : Bool := c = '\n' || c = '\r' || c = '\u2028' || c = '\u2029'

/-- Hex digits up to a closing brace, after some of them. -/
def bracedPoint (n : Nat) : List Char → Option (Nat × List Char)
  | [] => none
  | c :: r =>
    if c = '}' then some (n, r) else (hexDigit? c).bind fun d => bracedPoint (n * 16 + d) r

/-- A code point by its number, after a backslash: four hex digits, or any number of them in
braces. -/
def pointEscape : List Char → Option (Nat × List Char)
  | 'u' :: '{' :: c :: r =>
    ((hexDigit? c).bind fun d => bracedPoint d r).filter fun p => p.1 ≤ 0x10ffff
  | 'u' :: a :: b :: c :: d :: r => (hexUnit? a b c d).map fun n => (n, r)
  | _ => none

/-- Letters that stand for another character in an escape. All others stand for themselves. -/
def singleEscape : Char → Char
  | 'b' => '\x08'
  | 't' => '\t'
  | 'n' => '\n'
  | 'v' => '\x0b'
  | 'f' => '\x0c'
  | 'r' => '\r'
  | c => c

/-- An escape whose backslash is read. At the end of a line it stands for nothing. -/
def escapeUnits : List Char → Option (List UInt16 × List Char)
  | [] => none
  | 'u' :: r => (pointEscape ('u' :: r)).map fun p => (pointUnits p.1, p.2)
  | 'x' :: a :: b :: r =>
    (hexDigit? a).bind fun m => (hexDigit? b).map fun n => (pointUnits (m * 16 + n), r)
  | '\r' :: '\n' :: r => some ([], r)
  | c :: r =>
    if endsLine c then some ([], r)
    else if c = '0' ∧ r.head?.all (!Char.isDigit ·) then some (pointUnits 0, r)
    else if c.isDigit ∨ c = 'x' then none
    else some (charUnits (singleEscape c), r)

lemma length_bracedPoint {n : Nat} {cs : List Char} {p : Nat × List Char}
    (h : bracedPoint n cs = some p) : p.2.length < cs.length := by
  induction cs generalizing n with
  | nil => cases h
  | cons c r ih =>
    rw [bracedPoint] at h
    split_ifs at h
    · cases h
      simp
    · obtain ⟨d, -, hd⟩ := Option.bind_eq_some_iff.1 h
      exact (ih hd).trans (by simp)

lemma length_pointEscape {cs : List Char} {p : Nat × List Char} (h : pointEscape cs = some p) :
    p.2.length < cs.length := by
  unfold pointEscape at h
  split at h
  · obtain ⟨hbraced, -⟩ := Option.filter_eq_some_iff.1 h
    obtain ⟨d, -, hd⟩ := Option.bind_eq_some_iff.1 hbraced
    have := length_bracedPoint hd
    simp only [List.length_cons]
    omega
  · obtain ⟨n, -, rfl⟩ := Option.map_eq_some_iff.1 h
    simp only [List.length_cons]
    omega
  · cases h

/-- An escape takes at least one character. -/
lemma length_escapeUnits {cs : List Char} {p : List UInt16 × List Char}
    (h : escapeUnits cs = some p) : p.2.length < cs.length := by
  unfold escapeUnits at h
  split at h
  · cases h
  · obtain ⟨q, hq, rfl⟩ := Option.map_eq_some_iff.1 h
    exact length_pointEscape hq
  · obtain ⟨m, -, hm⟩ := Option.bind_eq_some_iff.1 h
    obtain ⟨n, -, rfl⟩ := Option.map_eq_some_iff.1 hm
    simp only [List.length_cons]
    omega
  · cases h
    simp only [List.length_cons]
    omega
  · split_ifs at h <;> cases h <;> simp

/-- The rest of a string literal whose opening quote is read: its value, and the text after the
closing quote. -/
def stringRest (quote : Char) : List Char → Option (List UInt16 × List Char)
  | [] => none
  | c :: r =>
    if c = quote then some ([], r)
    else if c = '\\' then
      match _escape : escapeUnits r with
      | none => none
      | some p => (stringRest quote p.2).map fun q => (p.1 ++ q.1, q.2)
    else if c = '\n' ∨ c = '\r' then none
    else (stringRest quote r).map fun q => (charUnits c ++ q.1, q.2)
termination_by cs => cs.length
decreasing_by
  · have := length_escapeUnits _escape
    simp only [List.length_cons]
    omega
  · simp

lemma stringRest_escape {quote : Char} {r r' : List Char} {us : List UInt16} (hq : quote ≠ '\\')
    (h : escapeUnits r = some (us, r')) :
    stringRest quote ('\\' :: r) = (stringRest quote r').map fun q => (us ++ q.1, q.2) := by
  rw [stringRest, if_neg hq.symm, if_pos rfl]
  split
  · next hnone => cases hnone.symm.trans h
  · next p hp =>
    obtain rfl : p = (us, r') := Option.some.inj (hp.symm.trans h)
    rfl

lemma stringRest_plain {quote c : Char} (hquote : c ≠ quote) (hescape : c ≠ '\\')
    (hline : ¬ (c = '\n' ∨ c = '\r')) (r : List Char) :
    stringRest quote (c :: r) = (stringRest quote r).map fun q => (charUnits c ++ q.1, q.2) := by
  rw [stringRest, if_neg hquote, if_neg hescape, if_neg hline]

/-- A string literal in single or double quotes at the start of a text. -/
def readString : List Char → Option (List UInt16 × List Char)
  | '"' :: r => stringRest '"' r
  | '\'' :: r => stringRest '\'' r
  | _ => none

-- escapes by number, one at the end of a line, and one of a character that stands for itself
example : readString "'\\x41\\u\x7b1F600\x7d\\\n\\q'; z".toList =
    some ([0x41, 0xd83d, 0xde00, 0x71], "; z".toList) := by cbv

-- a bare line feed and an octal escape are refused
example : readString "\"a\nb\"".toList = none ∧ readString "\"\\1\"".toList = none := by cbv

/-! ### Names -/

/-- The characters that names may hold by the version of Unicode an engine follows. All versions
agree on the first 128 characters. -/
structure Alphabet where
  starts : Char → Bool
  continues : Char → Bool
  starts_ascii : ∀ c, c.toNat < 128 → starts c = c.isAlpha
  continues_ascii : ∀ c, c.toNat < 128 → continues c = (c.isAlphanum || c = '_')

namespace Alphabet

/-- Only the characters that every version has. -/
instance : Inhabited Alphabet where
  default := {
    starts := Char.isAlpha
    continues := fun c => c.isAlphanum || c = '_'
    starts_ascii := fun _ _ => rfl
    continues_ascii := fun _ _ => rfl }

variable (u : Alphabet)

def startsName (c : Char) : Bool := u.starts c || c = '$' || c = '_'

/-- The joiners are allowed inside names. -/
def continuesName (c : Char) : Bool :=
  u.continues c || c = '$' || c = '\u200c' || c = '\u200d'

end Alphabet

/-- One character of a name, written as it is or as an escape. -/
def nameChar (allowed : Char → Bool) : List Char → Option (Char × List Char)
  | [] => none
  | c :: r =>
    if c = '\\' then
      ((pointEscape r).filter fun p => p.1.isValidChar ∧ allowed (.ofNat p.1)).map fun p =>
        (.ofNat p.1, p.2)
    else if allowed c then some (c, r) else none

lemma nameChar_plain {allowed : Char → Bool} {c : Char} (h : allowed c = true) (hc : c ≠ '\\')
    (r : List Char) : nameChar allowed (c :: r) = some (c, r) := by
  rw [nameChar, if_neg hc, if_pos h]

lemma length_nameChar {allowed : Char → Bool} {cs : List Char} {p : Char × List Char}
    (h : nameChar allowed cs = some p) : p.2.length < cs.length := by
  cases cs with
  | nil => cases h
  | cons c r =>
    rw [nameChar] at h
    split_ifs at h
    · obtain ⟨q, hq, rfl⟩ := Option.map_eq_some_iff.1 h
      exact (length_pointEscape (Option.filter_eq_some_iff.1 hq).1).trans (by simp)
    · cases h
      simp

/-- The characters that go on with a name, as many as there are. -/
def nameRest (u : Alphabet) (cs : List Char) : List UInt16 × List Char :=
  match _char : nameChar u.continuesName cs with
  | none => ([], cs)
  | some p => (charUnits p.1 ++ (nameRest u p.2).1, (nameRest u p.2).2)
termination_by cs.length
decreasing_by all_goals exact length_nameChar _char

lemma nameRest_of_none {u : Alphabet} {cs : List Char}
    (h : nameChar u.continuesName cs = none) : nameRest u cs = ([], cs) := by
  rw [nameRest]
  split
  · rfl
  · next p hp => cases h.symm.trans hp

lemma nameRest_of_some {u : Alphabet} {cs r : List Char} {c : Char}
    (h : nameChar u.continuesName cs = some (c, r)) :
    nameRest u cs = (charUnits c ++ (nameRest u r).1, (nameRest u r).2) := by
  rw [nameRest]
  split
  · next hnone => cases hnone.symm.trans h
  · next p hp =>
    obtain rfl : p = (c, r) := Option.some.inj (hp.symm.trans h)
    rfl

lemma nameRest_append {u : Alphabet} {cs r : List Char}
    (h : ∀ c ∈ cs, u.continuesName c = true ∧ c ≠ '\\')
    (hr : nameChar u.continuesName r = none) :
    nameRest u (cs ++ r) = (cs.flatMap charUnits, r) := by
  induction cs with
  | nil => exact nameRest_of_none hr
  | cons c cs ih =>
    have hc := h c (by simp)
    rw [List.cons_append, nameRest_of_some (nameChar_plain hc.1 hc.2 _),
      ih fun d hd => h d (by simp [hd]), List.flatMap_cons]

/-- A name at the start of a text. -/
def readName (u : Alphabet) (cs : List Char) : Option (List UInt16 × List Char) :=
  (nameChar u.startsName cs).map fun p =>
    (charUnits p.1 ++ (nameRest u p.2).1, (nameRest u p.2).2)

/-- The name of a property at the start of a text: a string literal or a name. -/
def readPropertyName (u : Alphabet) (cs : List Char) : Option (List UInt16 × List Char) :=
  (readString cs).or (readName u cs)

end ZodGraph.Script
