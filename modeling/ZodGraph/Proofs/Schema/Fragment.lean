import Mathlib.Data.List.Basic
import Mathlib.Tactic
import ZodGraph.Proofs.Schema.Unambiguous
import ZodGraph.Proofs.Schema.Vocabulary

/-!
What the text of an expression is made of: fixed words, names, literals, marks of optional fields
and lines that begin at a level. A property that holds of these fragments, and of texts put
together if it holds of each, holds of the text of every expression. The text is taken as a
function of the level, so that the property may compare levels.
-/

namespace ZodGraph.Schema

/-! ### Optional fields -/

mutual

/-- The optional fields in an expression, at any depth. -/
def Expr.optionals : Expr → Nat
  | .primitive _ => 0
  | .url => 0
  | .instanceOf _ => 0
  | .literal _ => 0
  | .enum _ => 0
  | .ref _ => 0
  | .lazy _ => 0
  | .array e => e.optionals
  | .record k v => k.optionals + v.optionals
  | .union es => optionalsAll es
  | .object fields catchall => fieldOptionals fields + catchallOptionals catchall

def optionalsAll : List Expr → Nat
  | [] => 0
  | e :: es => e.optionals + optionalsAll es

def fieldOptionals : List (FieldOf Expr) → Nat
  | [] => 0
  | ⟨_, expr, optional⟩ :: fs => expr.optionals + optional.toNat + fieldOptionals fs

def catchallOptionals : Option Expr → Nat
  | none => 0
  | some e => e.optionals

end

lemma optionalsAll_eq (es : List Expr) : optionalsAll es = (es.map Expr.optionals).sum := by
  induction es with
  | nil => rfl
  | cons e es ih => rw [optionalsAll, ih, List.map_cons, List.sum_cons]

lemma fieldOptionals_eq (fs : List Field) :
    fieldOptionals fs = (fs.map fun f => f.expr.optionals + f.optional.toNat).sum := by
  induction fs with
  | nil => rfl
  | cons f fs ih => rw [fieldOptionals, ih, List.map_cons, List.sum_cons]

/-! ### Fragments -/

/-- The fixed words in the text of expressions. -/
def words : List String :=
  ["z.string()", "z.number()", "z.boolean()", "z.date()", "z.unknown()", "z.never()", "z.null()",
    "z.void()", "z.string().url()", "z.instanceof(", "z.literal(", "z.enum([", "z.lazy(() => ",
    "z.array(", "z.record(", "z.union([", "z.object(\x7b\x7d)", "z.object(\x7b", ".catchall(",
    "Schema", ": ", ", ", ",", ")", "])"]

lemma Primitive.text_mem_words (p : Primitive) : p.text ∈ words := by
  cases p <;> decide

/-- A property of texts at every level, with a number of optional fields, that holds of the
fragments and of texts put together. Names are those that are allowed. -/
structure Fragmentwise (allowed : String → Prop) (P : (Nat → List Char) → Nat → Prop) :
    Prop where
  empty : P (fun _ => []) 0
  append {T U : Nat → List Char} {m n : Nat} (hT : P T m) (hU : P U n) :
    P (fun l => T l ++ U l) (m + n)
  /-- What stands inside an object stands a level deeper. -/
  deeper {T : Nat → List Char} {n : Nat} (h : P T n) : P (fun l => T (l + 1)) n
  word {w : String} (h : w ∈ words) : P (fun _ => w.toList) 0
  name {n : String} (h : allowed n) : P (fun _ => n.toList) 0
  string (s : String) : P (fun _ => (stringLiteral s).toList) 0
  /-- A number or a truth value, with the bracket after it. -/
  bare {v : Literal} (h : ∀ s, v ≠ .string s) : P (fun _ => (literalText v).toList ++ [')']) 0
  /-- The line of a field up to its key, a level deeper than the object. -/
  field (name : String) :
    P (fun l => '\n' :: ((indentation (l + 1)).toList ++ (key name).toList)) 0
  /-- The last line of an object. -/
  close : P (fun l => '\n' :: ((indentation l).toList ++ ['\x7d', ')'])) 0
  optional : P (fun _ => ".optional()".toList) 1

/-- A field with the line feed before it and without the one after it. -/
def FieldOf.lines (f : Field) (level : Nat) : List Char :=
  '\n' :: ((indentation level).toList ++ (key f.name).toList) ++ (": ".toList ++
    ((f.expr.text level).toList ++ ((optionalText f.optional).toList ++ ",".toList)))

lemma toList_fieldsText_lines (level : Nat) (fs : List Field) :
    '\n' :: (fieldsText level fs).toList = fs.flatMap (FieldOf.lines · level) ++ ['\n'] := by
  rw [toList_fieldsText]
  induction fs with
  | nil => rfl
  | cons f fs ih =>
    rw [List.flatMap_cons, toList_fieldText_append, List.flatMap_cons, List.append_assoc, ← ih]
    simp [FieldOf.lines]

lemma toList_objectText_lines (level : Nat) (f : Field) (fs : List Field) :
    (objectText level (f :: fs)).toList = "z.object(\x7b".toList ++
      ((f :: fs).flatMap (FieldOf.lines · (level + 1)) ++
        '\n' :: ((indentation level).toList ++ ['\x7d', ')'])) := by
  have hlines := toList_fieldsText_lines (level + 1) (f :: fs)
  calc (objectText level (f :: fs)).toList
      = "z.object(\x7b".toList ++ (('\n' :: (fieldsText (level + 1) (f :: fs)).toList) ++
          ((indentation level).toList ++ ['\x7d', ')'])) := by simp [objectText]
    _ = _ := by rw [hlines]; simp

namespace Fragmentwise

variable {allowed : String → Prop} {P : (Nat → List Char) → Nat → Prop}

lemma congr {T U : Nat → List Char} {n : Nat} (hU : P U n) (h : ∀ l, T l = U l) : P T n := by
  rwa [show T = U from funext h]

variable (F : Fragmentwise allowed P)

include F

lemma flatMap {α : Type} {T : α → Nat → List Char} {n : α → Nat} {xs : List α}
    (h : ∀ x ∈ xs, P (T x) (n x)) : P (fun l => xs.flatMap (T · l)) (xs.map n).sum := by
  induction xs with
  | nil => exact F.empty
  | cons x xs ih =>
    obtain ⟨hx, hxs⟩ := List.forall_mem_cons.1 h
    exact congr (F.append hx (ih hxs)) fun l => List.flatMap_cons

/-- Items with commas between them. -/
lemma items {α : Type} {T : α → Nat → String} {n : α → Nat} {xs : List α}
    (h : ∀ x ∈ xs, P (fun l => (T x l).toList) (n x)) :
    P (fun l => (", ".intercalate (xs.map (T · l))).toList) (xs.map n).sum := by
  cases xs with
  | nil => exact congr F.empty fun l => rfl
  | cons x xs =>
    obtain ⟨hx, hxs⟩ := List.forall_mem_cons.1 h
    have hrest : P (fun l => xs.flatMap fun y => ", ".toList ++ (T y l).toList)
        (xs.map fun y => 0 + n y).sum :=
      F.flatMap fun y hy => F.append (F.word (by decide)) (hxs y hy)
    have hall := F.append hx hrest
    simp only [Nat.zero_add] at hall
    refine congr hall fun l => ?_
    rw [List.map_cons, toList_intercalate_cons, List.flatMap_map]

lemma identifier {n : String} (h : allowed n) : P (fun _ => (identifier n).toList) 0 :=
  congr (F.append (F.name h) (F.word (w := "Schema") (by decide)))
    fun _ => by rw [Schema.identifier, String.toList_append]

/-- A text between two words. -/
lemma between {u v : String} {T : Nat → List Char} {n : Nat} (hu : u ∈ words) (hT : P T n)
    (hv : v ∈ words) : P (fun l => u.toList ++ (T l ++ v.toList)) n := by
  have h := F.append (F.word hu) (F.append hT (F.word hv))
  rwa [Nat.zero_add, Nat.add_zero] at h

lemma literal (v : Literal) : P (fun _ => (literalText v).toList ++ [')']) 0 := by
  cases v with
  | string s => exact F.append (F.string s) (F.word (w := ")") (by decide))
  | bool | int | number => exact F.bare (by simp)

lemma optionalText (b : Bool) : P (fun _ => (Schema.optionalText b).toList) b.toNat := by
  cases b with
  | false => exact F.empty
  | true => exact F.optional

lemma fieldLines {f : Field} (h : P (fun l => (f.expr.text l).toList) f.expr.optionals) :
    P (fun l => f.lines (l + 1)) (f.expr.optionals + f.optional.toNat) := by
  have hend := F.append (F.optionalText f.optional) (F.word (w := ",") (by decide))
  have hvalue := F.append (F.word (w := ": ") (by decide)) (F.append (F.deeper h) hend)
  have hall := F.append (F.field f.name) hvalue
  rw [Nat.zero_add, Nat.zero_add, Nat.add_zero] at hall
  exact hall

lemma object {fs : List Field}
    (h : ∀ f ∈ fs, P (fun l => (f.expr.text l).toList) f.expr.optionals) :
    P (fun l => (objectText l fs).toList) (fieldOptionals fs) := by
  cases fs with
  | nil =>
    exact congr (F.word (w := "z.object(\x7b\x7d)") (by decide)) fun l => by rw [objectText]
  | cons f fs =>
    have hlines := F.flatMap fun f hf => F.fieldLines (h f hf)
    have hall := F.append (F.word (w := "z.object(\x7b") (by decide))
      (F.append hlines F.close)
    rw [Nat.zero_add, Nat.add_zero, ← fieldOptionals_eq] at hall
    exact congr hall fun l => toList_objectText_lines l f fs

lemma catchall {o : Option Expr}
    (h : ∀ e ∈ o, P (fun l => (e.text l).toList) e.optionals) :
    P (fun l => (catchallText l o).toList) (catchallOptionals o) := by
  cases o with
  | none => exact congr F.empty fun l => by simp [catchallText]
  | some e =>
    refine congr (F.between (u := ".catchall(") (v := ")") (by decide) (h e rfl) (by decide))
      fun l => ?_
    simp only [catchallText, String.toList_append, List.append_assoc]

/-- **Text is made of fragments**: a property that can be checked on the fragments holds of the
text of every expression whose names are allowed, with the number of its optional fields. -/
theorem text (e : Expr) (h : ∀ n, e.Names n → allowed n) :
    P (fun l => (e.text l).toList) e.optionals := by
  induction e with
  | primitive p => exact congr (F.word p.text_mem_words) fun l => by rw [Expr.text]
  | url => exact congr (F.word (w := "z.string().url()") (by decide)) fun l => by rw [Expr.text]
  | instanceOf c =>
    have hc := F.name (h c (Or.inl .self))
    refine congr (F.between (u := "z.instanceof(") (v := ")") (by decide) hc (by decide))
      fun l => ?_
    simp only [Expr.text, String.toList_append, List.append_assoc]
  | literal v =>
    refine congr (F.append (F.word (w := "z.literal(") (by decide)) (F.literal v)) fun l => ?_
    simp [Expr.text]
  | enum vs =>
    have hitems : P (fun _ => (", ".intercalate (vs.map stringLiteral)).toList) 0 := by
      have hvs := F.items (T := fun s _ => stringLiteral s) (n := fun _ => 0)
        (fun s (_ : s ∈ vs) => F.string s)
      simpa using hvs
    refine congr (F.between (u := "z.enum([") (v := "])") (by decide) hitems (by decide))
      fun l => ?_
    simp only [Expr.text, String.toList_append, List.append_assoc]
  | ref n => exact congr (F.identifier (h n (Or.inr (Or.inl .self)))) fun l => by rw [Expr.text]
  | lazy n =>
    have hn := F.identifier (h n (Or.inr (Or.inr .self)))
    refine congr (F.between (u := "z.lazy(() => ") (v := ")") (by decide) hn (by decide))
      fun l => ?_
    simp only [Expr.text, String.toList_append, List.append_assoc]
  | array e ih =>
    have he := ih fun n hn => h n (hn.part (by simp [Expr.parts]))
    refine congr (F.between (u := "z.array(") (v := ")") (by decide) he (by decide)) fun l => ?_
    simp only [Expr.text, String.toList_append, List.append_assoc]
  | record k v ihk ihv =>
    have hk := ihk fun n hn => h n (hn.part (by simp [Expr.parts]))
    have hv := ihv fun n hn => h n (hn.part (by simp [Expr.parts]))
    have hkv := F.append (F.between (u := "z.record(") (v := ", ") (by decide) hk (by decide))
      (F.append hv (F.word (w := ")") (by decide)))
    refine congr hkv fun l => ?_
    simp only [Expr.text, String.toList_append, List.append_assoc]
  | union es ih =>
    have hes := F.items (T := fun e l => e.text l)
      fun e he => ih e he fun n hn => h n (hn.part (by simpa [Expr.parts] using he))
    rw [← optionalsAll_eq] at hes
    refine congr (F.between (u := "z.union([") (v := "])") (by decide) hes (by decide))
      fun l => ?_
    simp only [Expr.text, textItems_eq, String.toList_append, List.append_assoc]
  | object fields catchall ihf ihc =>
    have hfields := F.object fun f hf => ihf f hf fun n hn =>
      h n (hn.part (by simpa [Expr.parts] using Or.inl ⟨f, hf, rfl⟩))
    have hcatchall := F.catchall fun e he => ihc e he fun n hn =>
      h n (hn.part (by simpa [Expr.parts] using Or.inr he))
    refine congr (F.append hfields hcatchall) fun l => ?_
    rw [Expr.text, String.toList_append]

end Fragmentwise

end ZodGraph.Schema
