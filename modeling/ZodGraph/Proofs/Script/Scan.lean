import Mathlib.Data.List.Basic
import Mathlib.Tactic
import ZodGraph.Proofs.Script.Literal
import ZodGraph.Proofs.Text.Occurrence

/-!
A script engine reads text in pieces: string literals and comments as a whole, and everything
else character by character. Only here does it show whether a text stands inside a string or a
comment.
-/

namespace ZodGraph.Script

open Text (Apart apart_cons)

/-- A piece of a script. -/
inductive Piece where
  /-- A character outside strings and comments. -/
  | char (c : Char)
  | string (value : List UInt16)
  /-- The text between the marks of the comment. -/
  | comment (text : List Char)
deriving DecidableEq

lemma Piece.char_injective : Function.Injective Piece.char := fun _ _ h => Piece.char.inj h

/-- The rest of a block comment whose opening mark is read: its text, and what follows the first
closing mark. -/
def commentRest : List Char → Option (List Char × List Char)
  | '*' :: '/' :: r => some ([], r)
  | c :: r => (commentRest r).map fun p => (c :: p.1, p.2)
  | [] => none

lemma commentRest_cons {c : Char} {r : List Char} (h : ¬ ['*', '/'] <+: c :: r) :
    commentRest (c :: r) = (commentRest r).map fun p => (c :: p.1, p.2) := by
  rw [commentRest]
  rintro s rfl rfl
  exact h (List.prefix_append ['*', '/'] s)

/-- A comment ends at the first closing mark. -/
lemma commentRest_append {text : List Char} (h : Apart ['*', '/'] text) (r : List Char) :
    commentRest (text ++ '*' :: '/' :: r) = some (text, r) := by
  induction text with
  | nil => rfl
  | cons c text ih =>
    have hc : ¬ ['*', '/'] <+: c :: (text ++ '*' :: '/' :: r) :=
      h.not_prefix (List.cons_ne_nil c text) _
    rw [List.cons_append, commentRest_cons hc, ih (apart_cons.1 h).2]
    rfl

/-- A block comment at the start of a text. -/
def readComment : List Char → Option (List Char × List Char)
  | '/' :: '*' :: r => commentRest r
  | _ => none

/-- The characters that stand for themselves. A slash may also open a comment or a regular
expression, and a backtick opens a template. -/
def isCode (c : Char) : Bool := c ≠ '"' && c ≠ '\'' && c ≠ '/' && c ≠ '\x60'

/-- The first piece of a text. A slash that opens no block comment, and a template, are not
read: what they mean depends on more than the text that follows. -/
def readPiece : List Char → Option (Piece × List Char)
  | [] => none
  | c :: r =>
    if isCode c then some (.char c, r)
    else if c = '/' then (readComment (c :: r)).map fun p => (.comment p.1, p.2)
    else (readString (c :: r)).map fun p => (.string p.1, p.2)

/-- Reading a text piece by piece gives the pieces and leaves the rest. -/
inductive Reads : List Char → List Piece → List Char → Prop where
  | done (r : List Char) : Reads r [] r
  | next {t r s : List Char} {p : Piece} {ps : List Piece} (first : readPiece t = some (p, r))
      (rest : Reads r ps s) : Reads t (p :: ps) s

lemma Reads.one {t r : List Char} {p : Piece} (h : readPiece t = some (p, r)) : Reads t [p] r :=
  .next h (.done r)

lemma Reads.append {t r s : List Char} {ps qs : List Piece} (h : Reads t ps r)
    (h' : Reads r qs s) : Reads t (ps ++ qs) s := by
  induction h with
  | done => exact h'
  | next first _ ih => exact .next first (ih h')

/-- A text is cut into pieces in one way. -/
lemma Reads.unique {t : List Char} {ps qs : List Piece} (h : Reads t ps [])
    (h' : Reads t qs []) : ps = qs := by
  generalize hr : ([] : List Char) = r at h
  induction h generalizing qs with
  | done =>
    subst hr
    cases h' with
    | done => rfl
    | next first => cases first
  | next first _ ih =>
    cases h' with
    | done => cases first
    | next first' rest' =>
      obtain ⟨rfl, rfl⟩ := Prod.mk.inj (Option.some.inj (first.symm.trans first'))
      rw [ih rest' hr]

/-- Characters that stand for themselves are read one by one. -/
lemma reads_code {t : List Char} (h : t.all isCode = true) (r : List Char) :
    Reads (t ++ r) (t.map .char) r := by
  induction t with
  | nil => exact .done r
  | cons c t ih =>
    obtain ⟨hc, ht⟩ : isCode c = true ∧ t.all isCode = true := by simpa using h
    have hfirst : readPiece (c :: (t ++ r)) = some (.char c, t ++ r) := by
      rw [readPiece, if_pos hc]
    exact .next hfirst (ih ht)

-- the quote in the comment opens no string, and the marks in the string no comment
example : readPiece "/* it's */x".toList = some (.comment " it's ".toList, "x".toList) ∧
    readPiece "'/*'x".toList = some (.string [0x2f, 0x2a], "x".toList) := by
  constructor <;> cbv

end ZodGraph.Script
