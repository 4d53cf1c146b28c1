import Mathlib.Data.List.Basic
import Mathlib.Tactic
import ZodGraph.Proofs.Schema.Comment
import ZodGraph.Proofs.Schema.Fragment

/-!
The validator of a model makes a field optional once for each optional property, at any depth. The
calls are counted in the text as an engine reads it, so that a field name or a value that looks
like such a call does not count.
-/

namespace ZodGraph

open Schema (Expr)

/-! ### Optional properties -/

mutual

/-- The optional properties in a node, at any depth. Nothing is known below keys that are neither
strings nor integers, and a reference to a model is not followed. -/
def TypeNode.optionals : TypeNode → Nat
  | .scalar _ => 0
  | .model _ none => 0
  | .model name (some ⟨key, value⟩) =>
    if name = "Array" then value.optionals
    else if name = "Record" then if key = .other then 0 else value.optionals
    else 0
  | .enum _ => 0
  | .union variants => variantOptionals variants
  | .array element => element.optionals
  | .map key value => if key = .other then 0 else value.optionals
  | .object properties => propertyOptionals properties
  | .literal _ => 0
  | .intrinsic _ => 0
  | .unrecognized => 0

def variantOptionals : List TypeNode → Nat
  | [] => 0
  | t :: ts => t.optionals + variantOptionals ts

def propertyOptionals : List (PropertyOf TypeNode) → Nat
  | [] => 0
  | ⟨_, type, optional⟩ :: ps => type.optionals + optional.toNat + propertyOptionals ps

end

/-- The optional properties of a model and of its indexer, except that an indexer by integers
gives way to properties. -/
def Model.optionals (m : Model) : Nat :=
  propertyOptionals m.properties + m.indexer.elim 0 fun ix =>
    if ix.key = .integer ∧ m.properties ≠ [] then 0 else ix.value.optionals

namespace Schema

lemma optionals_unionOf (es : List Expr) : (unionOf es).optionals = optionalsAll es := by
  rcases es with _ | ⟨e, _ | ⟨e', es⟩⟩
  · rfl
  · simp [unionOf, optionalsAll]
  · rfl

lemma optionals_recordOf (key : KeyKind) (e : Expr) :
    (recordOf key e).optionals = if key = .other then 0 else e.optionals := by
  cases key <;> simp [recordOf, Expr.optionals, Expr.unknown]

lemma optionals_intrinsicOf (name : String) : (intrinsicOf name).optionals = 0 := by
  unfold intrinsicOf
  split <;> rfl

end Schema

open Schema (optionals_unionOf optionals_recordOf optionals_intrinsicOf)

section Validators

variable (scope : Scope)

lemma ScalarRef.optionals_expr (s : ScalarRef) : s.expr.optionals = 0 := by
  unfold ScalarRef.expr
  split
  · rename_i f _
    cases f <;> rfl
  · rfl

lemma Scope.optionals_modelExpr (name : String) : (scope.modelExpr name).optionals = 0 := by
  unfold Scope.modelExpr
  split_ifs <;> rfl

lemma Scope.optionals_enumExpr (name : String) : (scope.enumExpr name).optionals = 0 := by
  unfold Scope.enumExpr
  split_ifs <;> rfl

mutual

theorem TypeNode.optionals_expr (t : TypeNode) : (t.expr scope).optionals = t.optionals := by
  cases t with
  | scalar s => exact s.optionals_expr
  | model name indexer =>
    cases indexer with
    | none => exact scope.optionals_modelExpr name
    | some ix =>
      obtain ⟨key, value⟩ := ix
      rw [TypeNode.expr_model, TypeNode.optionals]
      split_ifs with harray hrecord hkey
      · exact value.optionals_expr
      · rw [optionals_recordOf, if_pos hkey]
      · rw [optionals_recordOf, if_neg hkey, value.optionals_expr]
      · exact scope.optionals_modelExpr name
  | enum name => exact scope.optionals_enumExpr name
  | union variants =>
    rw [TypeNode.expr, optionals_unionOf, TypeNode.optionals, optionals_exprAll]
  | array element => exact element.optionals_expr
  | map key value =>
    rw [TypeNode.expr, optionals_recordOf, TypeNode.optionals, value.optionals_expr]
  | object properties =>
    rw [TypeNode.expr, Expr.optionals, TypeNode.optionals, optionals_propertyFields]
    rfl
  | literal v => rfl
  | intrinsic name => exact optionals_intrinsicOf name
  | unrecognized => rfl

theorem optionals_exprAll (ts : List TypeNode) :
    Schema.optionalsAll (exprAll scope ts) = variantOptionals ts := by
  cases ts with
  | nil => rfl
  | cons t ts =>
    rw [exprAll, Schema.optionalsAll, t.optionals_expr, optionals_exprAll ts, variantOptionals]

theorem optionals_propertyFields (ps : List (PropertyOf TypeNode)) :
    Schema.fieldOptionals (propertyFields scope ps) = propertyOptionals ps := by
  cases ps with
  | nil => rfl
  | cons p ps =>
    obtain ⟨_, type, _⟩ := p
    rw [propertyFields, Schema.fieldOptionals, type.optionals_expr, optionals_propertyFields ps,
      propertyOptionals]

end

lemma propertyFields_eq_nil_iff (ps : List Property) : propertyFields scope ps = [] ↔ ps = [] := by
  simp [propertyFields_eq_map]

/-- The validator of a model has its optional properties as optional fields. -/
theorem Model.optionals_expr (m : Model) : (m.expr scope).optionals = m.optionals := by
  have hfields := optionals_propertyFields scope m.properties
  have hnil := propertyFields_eq_nil_iff scope m.properties
  unfold Model.expr Model.optionals
  rcases m.indexer with _ | ⟨key, value⟩
  · simpa [Expr.optionals, Schema.catchallOptionals] using hfields
  · have hvalue := value.optionals_expr scope
    rcases hps : propertyFields scope m.properties with _ | ⟨f, fs⟩
    · -- the indexer is the whole model
      have hnone : m.properties = [] := hnil.1 hps
      cases key <;> simp [Expr.optionals, hnone, propertyOptionals, hvalue]
    · have hsome : m.properties ≠ [] := fun h => by simp [hnil.2 h] at hps
      rw [hps] at hfields
      cases key <;>
        simp [Expr.optionals, Schema.catchallOptionals, hfields, hsome, hvalue]

end Validators

/-! ### Calls in the text -/

namespace Schema

open Script Text

/-- The call that makes a field optional, outside of strings and comments. -/
def optionalCall : List Piece := ".optional()".toList.map .char

/-- Whatever follows the text, it is read on its own, and so many of the calls begin in it. -/
def HasCalls (t : List Char) (n : Nat) : Prop :=
  ∃ ps, (∀ r, Reads (t ++ r) ps r) ∧ ∀ qs,
    (occurrences optionalCall (ps ++ qs)).length = n + (occurrences optionalCall qs).length

lemma HasCalls.append {a b : List Char} {m n : Nat} (ha : HasCalls a m) (hb : HasCalls b n) :
    HasCalls (a ++ b) (m + n) := by
  obtain ⟨ps, hps, hm⟩ := ha
  obtain ⟨qs, hqs, hn⟩ := hb
  refine ⟨ps ++ qs, fun r => ?_, fun rs => ?_⟩
  · rw [List.append_assoc]
    exact (hps (b ++ r)).append (hqs r)
  · rw [List.append_assoc, hm, hn, Nat.add_assoc]

/-- Pieces apart from the call bring none. -/
lemma hasCalls_of_apart {t : List Char} {ps : List Piece} (h : ∀ r, Reads (t ++ r) ps r)
    (hps : Apart optionalCall ps) : HasCalls t 0 :=
  ⟨ps, h, fun qs => by rw [hps.occurrences_append, Nat.zero_add]⟩

lemma hasCalls_code {t : List Char} (hcode : t.all isCode = true)
    (h : Apart ".optional()".toList t) : HasCalls t 0 :=
  hasCalls_of_apart (reads_code hcode) (h.map Piece.char_injective)

/-- Without a dot there is no call. -/
lemma hasCalls_dotless {t : List Char} (hcode : t.all isCode = true) (h : '.' ∉ t) :
    HasCalls t 0 :=
  hasCalls_code hcode (apart_of_not_mem h)

lemma hasCalls_stringLiteral (s : String) : HasCalls (stringLiteral s).toList 0 :=
  hasCalls_of_apart (reads_stringLiteral s) (apart_of_not_mem (by simp))

lemma hasCalls_optional : HasCalls ".optional()".toList 1 := by
  refine ⟨optionalCall, reads_code (by decide), fun qs => ?_⟩
  have hrest : Apart optionalCall ("optional()".toList.map Piece.char) :=
    apart_of_not_mem (by decide)
  have hcall : optionalCall ++ qs = .char '.' :: ("optional()".toList.map .char ++ qs) := rfl
  have hfirst : optionalCall <+: .char '.' :: ("optional()".toList.map .char ++ qs) := ⟨qs, rfl⟩
  rw [hcall, occurrences_cons, if_pos hfirst, hrest.occurrences_append, List.length_cons,
    Nat.add_comm]

/-- A class of characters without those that open strings, comments and templates. -/
lemma isCode_of_class {p : Char → Bool} {t : List Char} (h : ∀ c ∈ t, p c = true)
    (hp : "\"'/\x60".toList.all (!p ·) = true) : t.all isCode = true := by
  rw [List.all_eq_true]
  intro c hc
  have hpc := h c hc
  simp only [isCode, Bool.and_eq_true, decide_eq_true_eq]
  refine ⟨⟨⟨?_, ?_⟩, ?_⟩, ?_⟩ <;> rintro rfl <;> simp [hpc] at hp

lemma hasCalls_plainName {n : String} (h : plainName n = true) : HasCalls n.toList 0 := by
  have hchars := plainName_iff.1 h
  exact hasCalls_dotless (isCode_of_class hchars (by decide))
    fun hdot => absurd (hchars '.' hdot) (by decide)

lemma hasCalls_key (name : String) : HasCalls (key name).toList 0 := by
  rcases key_cases name with hkey | ⟨hkey, hplain, -⟩ <;> rw [hkey]
  · exact hasCalls_stringLiteral name
  · exact hasCalls_plainName hplain

lemma hasCalls_line (l : Nat) : HasCalls ('\n' :: (indentation l).toList) 0 := by
  have hchars : ∀ c ∈ '\n' :: (indentation l).toList, c = '\n' ∨ c = ' ' := by
    simp only [indentation, String.toList_ofList, List.mem_cons, List.mem_replicate]
    exact fun c hc => hc.imp_right And.right
  refine hasCalls_dotless (List.all_eq_true.2 fun c hc => ?_) fun hdot => ?_
  · rcases hchars c hc with rfl | rfl <;> rfl
  · simpa using hchars '.' hdot

lemma hasCalls_word {w : String} (h : w ∈ words) : HasCalls w.toList 0 := by
  have hwords : ∀ w ∈ words, w.toList.all isCode = true ∧ Apart ".optional()".toList w.toList := by
    decide +kernel
  exact hasCalls_code (hwords w h).1 (hwords w h).2

lemma hasCalls_bare {v : Literal} (h : ∀ s, v ≠ .string s) :
    HasCalls ((literalText v).toList ++ [')']) 0 := by
  have hchars := isBareChar_literalText h
  have hcode := isCode_of_class hchars (by decide)
  refine hasCalls_code (by simpa using ⟨by simpa using hcode, by decide⟩) ?_
  exact apart_of_second_not_mem (by decide) (by decide)
    fun ho => absurd (hchars 'o' ho) (by decide)

/-- The calls can be counted fragment by fragment. -/
lemma fragmentwise_hasCalls :
    Fragmentwise (plainName · = true) fun T n => ∀ l, HasCalls (T l) n where
  empty _ := hasCalls_dotless rfl (by simp)
  append hT hU l := (hT l).append (hU l)
  deeper h l := h (l + 1)
  word h _ := hasCalls_word h
  name h _ := hasCalls_plainName h
  string s _ := hasCalls_stringLiteral s
  bare h _ := hasCalls_bare h
  field name l := (hasCalls_line (l + 1)).append (hasCalls_key name)
  close l := (hasCalls_line l).append (hasCalls_dotless (by decide) (by decide))
  optional _ := hasCalls_optional

end Schema

namespace Model

open Script Text
open Schema (plainName optionalCall)

variable (scope : Scope) (m : Model)

/-- **Optional once**: where the models and enums in scope have plain names, the text of the
validator of a model can be read to its end, and outside of strings it has as many calls that make
a field optional as the model has optional properties, at any depth. -/
theorem optional_called_once (hmodels : ∀ n ∈ scope.models, plainName n = true)
    (henums : ∀ n ∈ scope.enums, plainName n = true) :
    (∃ ps, Reads ((m.expr scope).text 0).toList ps []) ∧
    ∀ ps, Reads ((m.expr scope).text 0).toList ps [] →
      (occurrences optionalCall ps).length = m.optionals := by
  have hnames : ∀ n, (m.expr scope).Names n → plainName n = true := by
    intro n hn
    rcases names_expr hn with rfl | hn | hn
    · rfl
    · exact hmodels n hn
    · exact henums n hn
  obtain ⟨ps, hps, hcount⟩ := Schema.fragmentwise_hasCalls.text (m.expr scope) hnames 0
  have hread : Reads ((m.expr scope).text 0).toList ps [] :=
    List.append_nil ((m.expr scope).text 0).toList ▸ hps []
  refine ⟨⟨ps, hread⟩, fun qs hqs => ?_⟩
  obtain rfl := hread.unique hqs
  have hall := hcount []
  rw [List.append_nil, occurrences_nil (by decide), m.optionals_expr] at hall
  exact hall

/-- Optional properties in an array, in a union of one variant and in a map, with a key and a
value that look like the call. Those under keys of another kind and in the indexer do not count. -/
def stock : Model where
  name := "Stock"
  properties := [
    ⟨".optional()", .array (.union [.object [⟨"id", .literal (.string ".optional()"), true⟩]]),
      true⟩,
    ⟨"seen", .map .integer (.object [⟨"by", .model "Stock" none, true⟩]), false⟩,
    ⟨"rest", .map .other (.object [⟨"lost", .unrecognized, true⟩]), true⟩]
  indexer := some ⟨.integer, .object [⟨"lost", .unrecognized, true⟩]⟩

def stockScope : Scope := { models := ["Stock"] }

theorem optional_called_once_stock :
    stock.optionals = 4 ∧ (∃ ps, Reads ((stock.expr stockScope).text 0).toList ps []) ∧
    ∀ ps, Reads ((stock.expr stockScope).text 0).toList ps [] →
      (occurrences optionalCall ps).length = 4 := by
  obtain ⟨hreads, hcalls⟩ := optional_called_once stockScope stock (by decide) (by decide)
  exact ⟨rfl, hreads, hcalls⟩

end Model

end ZodGraph
