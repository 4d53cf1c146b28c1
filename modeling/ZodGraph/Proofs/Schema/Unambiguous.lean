import Mathlib.Data.Fintype.Pi
import Mathlib.Data.List.Basic
import Mathlib.Tactic
import ZodGraph.Proofs.Schema.Lexeme

/-!
The text of an expression can be read in one way only: with what follows it, it determines the
expression and where it ends. Strings, enum values and field names may hold anything.
-/

namespace ZodGraph.Schema

/-- Induction on expressions, with the parts of unions and objects given by membership. -/
@[induction_eliminator]
theorem Expr.induction {motive : Expr → Prop} (primitive : ∀ p, motive (.primitive p))
    (url : motive .url) (instanceOf : ∀ c, motive (.instanceOf c))
    (literal : ∀ v, motive (.literal v)) (enum : ∀ vs, motive (.enum vs))
    (ref : ∀ n, motive (.ref n)) (lazy : ∀ n, motive (.lazy n))
    (array : ∀ e, motive e → motive (.array e))
    (record : ∀ k v, motive k → motive v → motive (.record k v))
    (union : ∀ es, (∀ e ∈ es, motive e) → motive (.union es))
    (object : ∀ fields catchall, (∀ f ∈ fields, motive f.expr) → (∀ e ∈ catchall, motive e) →
      motive (.object fields catchall)) (e : Expr) : motive e :=
  @Expr.rec motive (fun es => ∀ e ∈ es, motive e) (fun fs => ∀ f ∈ fs, motive f.expr)
    (fun o => ∀ e ∈ o, motive e) (fun f => motive f.expr)
    primitive url instanceOf literal enum ref lazy array record union object
    (by simp) (fun _ _ he hes => List.forall_mem_cons.2 ⟨he, hes⟩)
    (by simp) (fun _ _ hf hfs => List.forall_mem_cons.2 ⟨hf, hfs⟩)
    (by simp) (fun e he => by simpa using he) (fun _ _ _ he => he) e

mutual

/-- The names an expression refers to are plain, and no floating-point literal is in it. -/
def Expr.plain : Expr → Bool
  | .primitive _ => true
  | .url => true
  | .instanceOf c => plainName c
  | .literal (.number _) => false
  | .literal _ => true
  | .enum _ => true
  | .ref n => plainName n
  | .lazy n => plainName n
  | .array e => e.plain
  | .record k v => k.plain && v.plain
  | .union es => plainAll es
  | .object fields catchall => plainFields fields && plainCatchall catchall

def plainAll : List Expr → Bool
  | [] => true
  | e :: es => e.plain && plainAll es

def plainFields : List (FieldOf Expr) → Bool
  | [] => true
  | ⟨_, expr, _⟩ :: fs => expr.plain && plainFields fs

def plainCatchall : Option Expr → Bool
  | none => true
  | some e => e.plain

end

lemma plainAll_iff {es : List Expr} : plainAll es = true ↔ ∀ e ∈ es, e.plain = true := by
  induction es with
  | nil => simp [plainAll]
  | cons e es ih => simp [plainAll, ih]

lemma plainFields_iff {fs : List (FieldOf Expr)} :
    plainFields fs = true ↔ ∀ f ∈ fs, f.expr.plain = true := by
  induction fs with
  | nil => simp [plainFields]
  | cons f fs ih => simp [plainFields, ih]

lemma plainCatchall_iff {o : Option Expr} :
    plainCatchall o = true ↔ ∀ e ∈ o, e.plain = true := by
  cases o <;> simp [plainCatchall]

lemma textItems_eq (level : Nat) (es : List Expr) :
    textItems level es = es.map (Expr.text level) := by
  induction es with
  | nil => rw [textItems, List.map_nil]
  | cons e es ih => rw [textItems, ih, List.map_cons]

lemma toList_fieldsText (level : Nat) (fs : List (FieldOf Expr)) :
    (fieldsText level fs).toList = fs.flatMap fun f => (f.text level).toList := by
  induction fs with
  | nil => simp [fieldsText]
  | cons f fs ih =>
    rw [fieldsText, String.toList_append, ih, List.flatMap_cons, FieldOf.text, fieldsText,
      fieldsText]
    simp

/-! ### What follows an expression -/

/-- The text after an expression: the end of a list, a call or a definition, the next item, or
the mark of an optional field. -/
def closes : List Char → Bool
  | ')' :: _ => true
  | ']' :: _ => true
  | ',' :: _ => true
  | ';' :: _ => true
  | '.' :: 'o' :: _ => true
  | _ => false

lemma endsName_of_closes {r : List Char} (h : closes r = true) : EndsName r := by
  fun_cases closes r
  case case6 => simp [closes] at h
  all_goals exact endsName_cons (by decide)

/-! ### Heads -/

instance : Fintype Primitive where
  elems := {.string, .number, .boolean, .date, .unknown, .never, .null, .void}
  complete p := by cases p <;> decide

/-- The kind of validator a text begins with. A URL begins as a string does. -/
inductive Head where
  | primitive (p : Primitive)
  | instanceOf
  | literal
  | enum
  | lazy
  | array
  | record
  | union
  | object
deriving DecidableEq, Fintype

def Expr.head : Expr → Option Head
  | .primitive p => some (.primitive p)
  | .url => some (.primitive .string)
  | .instanceOf _ => some .instanceOf
  | .literal _ => some .literal
  | .enum _ => some .enum
  | .ref _ => none
  | .lazy _ => some .lazy
  | .array _ => some .array
  | .record _ _ => some .record
  | .union _ => some .union
  | .object _ _ => some .object

def Head.keyword : Head → String
  | primitive .string => "string"
  | primitive .number => "number"
  | primitive .boolean => "boolean"
  | primitive .date => "date"
  | primitive .unknown => "unknown"
  | primitive .never => "never"
  | primitive .null => "null"
  | primitive .void => "void"
  | instanceOf => "instanceof"
  | literal => "literal"
  | enum => "enum"
  | lazy => "lazy"
  | array => "array"
  | record => "record"
  | union => "union"
  | object => "object"

lemma Head.keyword_injective : Function.Injective keyword := by
  decide

lemma Head.plainName_keyword (k : Head) : plainName k.keyword = true := by
  cases k with
  | primitive p => cases p <;> rfl
  | _ => rfl

/-- Every validator but a plain reference is a call of its keyword. -/
lemma Expr.text_of_head {e : Expr} {k : Head} (h : e.head = some k) (level : Nat) :
    ∃ r, (e.text level).toList = "z.".toList ++ (k.keyword.toList ++ '(' :: r) := by
  cases e with
  | primitive p => cases h; cases p <;> exact ⟨[')'], by rw [Expr.text]; rfl⟩
  | ref n => cases h
  | object fields catchall =>
    cases h
    cases fields <;> simp [Expr.text, objectText, Head.keyword]
  | _ => cases h; simp [Expr.text, Head.keyword]

/-- The first characters of a reference are those of a name, also if the name itself is empty. -/
lemma isNameChar_identifier {name : String} {r : List Char} {i : Nat} {c : Char}
    (h : plainName name = true) (hi : i < 6)
    (hc : ((identifier name).toList ++ r)[i]? = some c) : isNameChar c = true := by
  have hlen : i < (identifier name).toList.length := by
    rw [identifier, String.toList_append, List.length_append]
    exact Nat.lt_add_left _ hi
  rw [List.getElem?_append_left hlen] at hc
  exact plainName_iff.1 (plainName_identifier h) c (List.mem_of_getElem? hc)

lemma Expr.text_of_no_head {e : Expr} (he : e.plain = true) (h : e.head = none) (level : Nat) :
    ∃ n, e.text level = identifier n ∧ plainName n = true := by
  cases e with
  | ref n => exact ⟨n, by rw [Expr.text], by simpa [Expr.plain] using he⟩
  | _ => cases h

/-- A reference does not read as a call. -/
lemma head_eq_none_of_text {e e' : Expr} {level : Nat} {r r' : List Char} (he : e.plain = true)
    (hnone : e.head = none)
    (h : (e.text level).toList ++ r = (e'.text level).toList ++ r') : e'.head = none := by
  obtain ⟨n, hn, hplain⟩ := Expr.text_of_no_head he hnone level
  cases hk : e'.head with
  | none => rfl
  | some k =>
    obtain ⟨s, hs⟩ := Expr.text_of_head hk level
    have hdot : ((identifier n).toList ++ r)[1]? = some '.' := by
      rw [← hn, h, hs]
      rfl
    exact absurd (isNameChar_identifier hplain (by omega) hdot) (by decide)

/-- Expressions with the same text begin with the same head. -/
lemma Expr.head_eq_of_text {e e' : Expr} {level : Nat} {r r' : List Char} (he : e.plain = true)
    (he' : e'.plain = true) (h : (e.text level).toList ++ r = (e'.text level).toList ++ r') :
    e.head = e'.head := by
  cases hk : e.head with
  | none => rw [head_eq_none_of_text he hk h]
  | some k =>
    cases hk' : e'.head with
    | none =>
      rw [head_eq_none_of_text he' hk' h.symm] at hk
      cases hk
    | some k' =>
      obtain ⟨s, hs⟩ := Expr.text_of_head hk level
      obtain ⟨s', hs'⟩ := Expr.text_of_head hk' level
      rw [hs, hs'] at h
      simp only [List.append_assoc] at h
      obtain ⟨hkey, -⟩ := name_inj k.plainName_keyword k'.plainName_keyword
        (endsName_cons (by decide)) (endsName_cons (by decide)) (List.append_cancel_left h)
      rw [Head.keyword_injective hkey]

/-- An expression does not begin with the bracket that ends a list of them. -/
lemma text_ne_bracket {e : Expr} (he : e.plain = true) (level : Nat) (s s' : List Char) :
    (e.text level).toList ++ s ≠ ']' :: s' := by
  intro h
  cases hk : e.head with
  | none =>
    obtain ⟨n, hn, hplain⟩ := Expr.text_of_no_head he hk level
    have hfirst : ((identifier n).toList ++ s)[0]? = some ']' := by
      rw [← hn, h]
      rfl
    exact absurd (isNameChar_identifier hplain (by omega) hfirst) (by decide)
  | some k =>
    obtain ⟨t, ht⟩ := Expr.text_of_head hk level
    rw [ht] at h
    simp at h

/-! ### Parts -/

/-- The characters the text of a literal may begin with. -/
def leads : Literal → Char → Bool
  | .bool _, c => c = 't' || c = 'f'
  | .int _, c => isNumberChar c
  | .number _, _ => false
  | .string _, c => c = '"'

lemma exists_lead {v : Literal} (hv : (Expr.literal v).plain = true) :
    ∃ c cs, (literalText v).toList = c :: cs ∧ leads v c = true := by
  cases v with
  | bool b => cases b <;> exact ⟨_, _, rfl, rfl⟩
  | int n => exact exists_head_int n
  | number x => simp [Expr.plain] at hv
  | string s => exact ⟨_, _, toList_stringLiteral s, rfl⟩

lemma literal_inj {v w : Literal} {r r' : List Char} (hv : (Expr.literal v).plain = true)
    (hw : (Expr.literal w).plain = true)
    (h : (literalText v).toList ++ ')' :: r = (literalText w).toList ++ ')' :: r') :
    v = w ∧ r = r' := by
  obtain ⟨c, cs, hc, hlead⟩ := exists_lead hv
  obtain ⟨d, ds, hd, hlead'⟩ := exists_lead hw
  obtain rfl : c = d := by
    rw [hc, hd] at h
    exact (List.cons.inj h).1
  -- literals of different kinds begin differently
  cases v with
  | bool a =>
    cases w with
    | bool b => cases a <;> cases b <;> simp_all [literalText]
    | _ => grind [leads, isNumberChar_ne]
  | int m =>
    cases w with
    | int n =>
      obtain ⟨rfl, rfl⟩ := int_inj h
      exact ⟨rfl, rfl⟩
    | _ => grind [leads, isNumberChar_ne]
  | number x => cases hlead
  | string s =>
    cases w with
    | string t =>
      obtain ⟨rfl, hr⟩ := stringLiteral_inj h
      exact ⟨rfl, (List.cons.inj hr).2⟩
    | _ => grind [leads, isNumberChar_ne]

/-- Items between commas and a closing bracket. -/
lemma commaList_inj {α : Type} {T : α → String} {xs ys : List α} {r r' : List Char}
    (Stop : List Char → Prop)
    (hT : ∀ x ∈ xs, ∀ y ∈ ys, ∀ s s', Stop s → Stop s' →
      (T x).toList ++ s = (T y).toList ++ s' → x = y ∧ s = s')
    (hfirst : ∀ x ∈ xs ++ ys, ∀ s s', (T x).toList ++ s ≠ ']' :: s')
    (hcomma : ∀ s, Stop (',' :: s)) (hbracket : ∀ s, Stop (']' :: s))
    (h : (", ".intercalate (xs.map T)).toList ++ ']' :: r =
      (", ".intercalate (ys.map T)).toList ++ ']' :: r') : xs = ys ∧ r = r' := by
  have hcons : ∀ (z : α) (zs : List α), (", ".intercalate ((z :: zs).map T)).toList =
      (T z).toList ++ zs.flatMap fun t => ", ".toList ++ (T t).toList := by
    intro z zs
    rw [List.map_cons, toList_intercalate_cons, List.flatMap_map]
  have hnext : ∀ (z : α) (s : List Char), Stop (", ".toList ++ (T z).toList ++ s) := by
    simpa using fun _ _ => hcomma _
  cases xs with
  | nil =>
    cases ys with
    | nil => simpa using h
    | cons y ys =>
      rw [hcons, List.append_assoc] at h
      exact absurd h.symm (hfirst y (by simp) _ _)
  | cons x xs =>
    cases ys with
    | nil =>
      rw [hcons, List.append_assoc] at h
      exact absurd h (hfirst x (by simp) _ _)
    | cons y ys =>
      rw [hcons, hcons, List.append_assoc, List.append_assoc] at h
      obtain ⟨rfl, hrest⟩ := hT x (by simp) y (by simp) _ _
        (stop_flatMap hnext xs (hbracket r)) (stop_flatMap hnext ys (hbracket r')) h
      have hitem : ∀ a ∈ xs, ∀ b ∈ ys, ∀ s s', Stop s → Stop s' →
          (", ".toList ++ (T a).toList) ++ s = (", ".toList ++ (T b).toList) ++ s' →
          a = b ∧ s = s' := by
        intro a ha b hb s s' hs hs' heq
        rw [List.append_assoc, List.append_assoc] at heq
        exact hT a (by simp [ha]) b (by simp [hb]) s s' hs hs' (List.append_cancel_left heq)
      obtain ⟨rfl, hend⟩ := flatMap_inj Stop hitem hnext (hbracket r) (hbracket r') (by simp)
        (by simp) hrest
      exact ⟨rfl, (List.cons.inj hend).2⟩

/-! ### Expressions -/

/-- With any text that may follow, the text of the expression is that of no other. -/
def Expr.Legible (e : Expr) : Prop :=
  ∀ {e' : Expr} {level : Nat} {r r' : List Char}, e.plain = true → e'.plain = true →
    closes r = true → closes r' = true →
    (e.text level).toList ++ r = (e'.text level).toList ++ r' → e = e' ∧ r = r'

lemma toList_fieldText_append (level : Nat) (f : Field) (s : List Char) :
    (f.text level).toList ++ s = (indentation level).toList ++ ((key f.name).toList ++
      ':' :: ' ' :: ((f.expr.text level).toList ++
        ((optionalText f.optional).toList ++ ',' :: '\n' :: s))) := by
  obtain ⟨name, expr, optional⟩ := f
  simp [FieldOf.text, fieldsText]

lemma closes_optional (b : Bool) (s : List Char) :
    closes ((optionalText b).toList ++ ',' :: s) = true := by
  cases b <;> rfl

lemma optional_inj {a b : Bool} {s s' : List Char}
    (h : (optionalText a).toList ++ ',' :: s = (optionalText b).toList ++ ',' :: s') :
    a = b ∧ s = s' := by
  cases a <;> cases b <;> simp_all [optionalText]

lemma field_inj {f g : Field} {level : Nat} {s s' : List Char} (hf : f.expr.Legible)
    (hplain : f.expr.plain = true) (hplain' : g.expr.plain = true)
    (h : (f.text level).toList ++ s = (g.text level).toList ++ s') : f = g ∧ s = s' := by
  obtain ⟨name, expr, optional⟩ := f
  obtain ⟨name', expr', optional'⟩ := g
  rw [toList_fieldText_append, toList_fieldText_append] at h
  obtain ⟨rfl, hvalue⟩ := key_inj (endsName_cons (by decide)) (endsName_cons (by decide))
    (List.append_cancel_left h)
  simp only [List.cons.injEq, true_and] at hvalue
  obtain ⟨rfl, hmark⟩ := hf hplain hplain' (closes_optional _ _) (closes_optional _ _) hvalue
  obtain ⟨rfl, hend⟩ := optional_inj hmark
  exact ⟨rfl, (List.cons.inj hend).2⟩

/-- The closing brace stands a level above the fields. -/
lemma brace_ne_field (level : Nat) (f : Field) (r s : List Char) :
    (indentation level).toList ++ '\x7d' :: r ≠ (f.text (level + 1)).toList ++ s := by
  have hdeeper : (indentation (level + 1)).toList = (indentation level).toList ++ [' ', ' '] := by
    simp [indentation, Nat.mul_add, List.replicate_add]
  rw [toList_fieldText_append, hdeeper, List.append_assoc]
  intro h
  simpa using List.append_cancel_left h

lemma toList_objectText_append (level : Nat) (f : Field) (fs : List Field) (r : List Char) :
    (objectText level (f :: fs)).toList ++ r = "z.object(\x7b\n".toList ++
      (((f :: fs).flatMap fun f => (f.text (level + 1)).toList) ++
        ((indentation level).toList ++ '\x7d' :: ')' :: r)) := by
  rw [objectText, ← toList_fieldsText]
  simp

lemma object_inj {fs gs : List Field} {level : Nat} {r r' : List Char}
    (hfs : ∀ f ∈ fs, f.expr.Legible) (hplain : ∀ f ∈ fs, f.expr.plain = true)
    (hplain' : ∀ g ∈ gs, g.expr.plain = true)
    (h : (objectText level fs).toList ++ r = (objectText level gs).toList ++ r') :
    fs = gs ∧ r = r' := by
  cases fs with
  | nil =>
    cases gs with
    | nil => simpa [objectText] using h
    | cons g gs =>
      rw [toList_objectText_append] at h
      simp [objectText] at h
  | cons f fs =>
    cases gs with
    | nil =>
      rw [toList_objectText_append] at h
      simp [objectText] at h
    | cons g gs =>
      rw [toList_objectText_append, toList_objectText_append] at h
      obtain ⟨hfields, hrest⟩ := flatMap_inj (fun _ => True)
        (fun a ha b hb s s' _ _ heq => field_inj (hfs a ha) (hplain a ha) (hplain' b hb) heq)
        (fun _ _ => trivial) trivial trivial (fun _ _ => brace_ne_field _ _ _ _)
        (fun _ _ => brace_ne_field _ _ _ _) (List.append_cancel_left h)
      have hend := List.append_cancel_left hrest
      simp only [List.cons.injEq, true_and] at hend
      exact ⟨hfields, hend⟩

lemma catchall_inj {o o' : Option Expr} {level : Nat} {r r' : List Char}
    (ho : ∀ e ∈ o, e.Legible) (hplain : ∀ e ∈ o, e.plain = true)
    (hplain' : ∀ e ∈ o', e.plain = true) (hr : closes r = true) (hr' : closes r' = true)
    (h : (catchallText level o).toList ++ r = (catchallText level o').toList ++ r') :
    o = o' ∧ r = r' := by
  have hsome : ∀ (e : Expr) (s : List Char), (catchallText level (some e)).toList ++ s =
      ".catchall(".toList ++ ((e.text level).toList ++ (")".toList ++ s)) := by
    intro e s
    simp only [catchallText, String.toList_append, List.append_assoc]
  have hnone : ∀ s : List Char, (catchallText level none).toList ++ s = s := by
    simp [catchallText]
  cases o with
  | none =>
    cases o' with
    | none => exact ⟨rfl, by rwa [hnone, hnone] at h⟩
    | some e' =>
      rw [hnone, hsome] at h
      rw [h] at hr
      cases hr
  | some e =>
    cases o' with
    | none =>
      rw [hnone, hsome] at h
      rw [← h] at hr'
      cases hr'
    | some e' =>
      rw [hsome, hsome] at h
      obtain ⟨rfl, hrest⟩ := ho e rfl (hplain e rfl) (hplain' e' rfl) rfl rfl
        (List.append_cancel_left h)
      exact ⟨rfl, List.append_cancel_left hrest⟩

/-- **Legibility**: no two plain expressions have the same text, whatever their strings are and
whatever follows them. -/
theorem Expr.legible (e : Expr) : e.Legible := by
  induction e with
  | primitive p =>
    intro e' level r r' he he' hr hr' h
    have hhead := Expr.head_eq_of_text he he' h
    cases e' with
    | primitive p' =>
      cases hhead
      exact ⟨rfl, List.append_cancel_left h⟩
    | url =>
      cases hhead
      have hrest : r = ".url()".toList ++ r' := by simpa [Expr.text, Primitive.text] using h
      rw [hrest] at hr
      cases hr
    | _ => cases hhead
  | url =>
    intro e' level r r' he he' hr hr' h
    have hhead := Expr.head_eq_of_text he he' h
    cases e' with
    | url => exact ⟨rfl, List.append_cancel_left h⟩
    | primitive p' =>
      cases hhead
      have hrest : r' = ".url()".toList ++ r := by simpa [Expr.text, Primitive.text] using h.symm
      rw [hrest] at hr'
      cases hr'
    | _ => cases hhead
  | instanceOf c =>
    intro e' level r r' he he' hr hr' h
    cases e' with
    | instanceOf c' =>
      simp only [Expr.plain] at he he'
      simp only [Expr.text, String.toList_append, List.append_assoc] at h
      obtain ⟨rfl, hrest⟩ := name_inj he he' (endsName_append (by decide))
        (endsName_append (by decide)) (List.append_cancel_left h)
      exact ⟨rfl, List.append_cancel_left hrest⟩
    | _ => cases Expr.head_eq_of_text he he' h
  | literal v =>
    intro e' level r r' he he' hr hr' h
    cases e' with
    | literal w =>
      obtain ⟨rfl, rfl⟩ := literal_inj he he' (by simpa [Expr.text] using h)
      exact ⟨rfl, rfl⟩
    | _ => cases Expr.head_eq_of_text he he' h
  | enum vs =>
    intro e' level r r' he he' hr hr' h
    cases e' with
    | enum ws =>
      simp only [Expr.text, String.toList_append, List.append_assoc] at h
      obtain ⟨rfl, hrest⟩ := commaList_inj (fun _ => True)
        (fun x hx y hy s s' _ _ heq => stringLiteral_inj heq)
        (by simp [toList_stringLiteral]) (fun _ => trivial) (fun _ => trivial)
        (List.append_cancel_left h)
      exact ⟨rfl, (List.cons.inj hrest).2⟩
    | _ => cases Expr.head_eq_of_text he he' h
  | ref n =>
    intro e' level r r' he he' hr hr' h
    cases e' with
    | ref n' =>
      simp only [Expr.plain, Expr.text] at he he' h
      obtain ⟨rfl, rfl⟩ :=
        identifier_inj he he' (endsName_of_closes hr) (endsName_of_closes hr') h
      exact ⟨rfl, rfl⟩
    | _ => cases Expr.head_eq_of_text he he' h
  | lazy n =>
    intro e' level r r' he he' hr hr' h
    cases e' with
    | lazy n' =>
      simp only [Expr.plain] at he he'
      simp only [Expr.text, String.toList_append, List.append_assoc] at h
      obtain ⟨rfl, hrest⟩ := identifier_inj he he' (endsName_append (by decide))
        (endsName_append (by decide)) (List.append_cancel_left h)
      exact ⟨rfl, List.append_cancel_left hrest⟩
    | _ => cases Expr.head_eq_of_text he he' h
  | array e ih =>
    intro e' level r r' he he' hr hr' h
    cases e' with
    | array e' =>
      simp only [Expr.plain] at he he'
      simp only [Expr.text, String.toList_append, List.append_assoc] at h
      obtain ⟨rfl, hrest⟩ := ih he he' rfl rfl (List.append_cancel_left h)
      exact ⟨rfl, List.append_cancel_left hrest⟩
    | _ => cases Expr.head_eq_of_text he he' h
  | record k v ihk ihv =>
    intro e' level r r' he he' hr hr' h
    cases e' with
    | record k' v' =>
      simp only [Expr.plain, Bool.and_eq_true] at he he'
      simp only [Expr.text, String.toList_append, List.append_assoc] at h
      obtain ⟨rfl, hvalue⟩ := ihk he.1 he'.1 rfl rfl (List.append_cancel_left h)
      obtain ⟨rfl, hrest⟩ := ihv he.2 he'.2 rfl rfl (List.append_cancel_left hvalue)
      exact ⟨rfl, List.append_cancel_left hrest⟩
    | _ => cases Expr.head_eq_of_text he he' h
  | union es ih =>
    intro e' level r r' he he' hr hr' h
    cases e' with
    | union es' =>
      simp only [Expr.plain, plainAll_iff] at he he'
      simp only [Expr.text, textItems_eq, String.toList_append, List.append_assoc] at h
      obtain ⟨rfl, hrest⟩ := commaList_inj (fun s => closes s = true)
        (fun x hx y hy s s' hs hs' heq => ih x hx (he x hx) (he' y hy) hs hs' heq)
        (fun x hx => text_ne_bracket ((List.mem_append.1 hx).elim (he x) (he' x)) level)
        (fun _ => rfl) (fun _ => rfl) (List.append_cancel_left h)
      exact ⟨rfl, (List.cons.inj hrest).2⟩
    | _ => cases Expr.head_eq_of_text he he' h
  | object fields catchall ihf ihc =>
    intro e' level r r' he he' hr hr' h
    cases e' with
    | object fields' catchall' =>
      simp only [Expr.plain, Bool.and_eq_true, plainFields_iff, plainCatchall_iff] at he he'
      simp only [Expr.text, String.toList_append, List.append_assoc] at h
      obtain ⟨rfl, hrest⟩ := object_inj ihf he.1 he'.1 h
      obtain ⟨rfl, rfl⟩ := catchall_inj ihc he.2 he'.2 hr hr' hrest
      exact ⟨rfl, rfl⟩
    | _ => cases Expr.head_eq_of_text he he' h

end ZodGraph.Schema
