import Mathlib.Data.List.Basic
import Mathlib.Tactic
import ZodGraph.Schema.Assembly

/-!
The references inside expressions, and which of them the validators of nodes, models and enums
hold: names in scope that the node or model refers to, direct ones to what is defined and
deferred ones to what is not.
-/

namespace ZodGraph

open Schema (Expr Definition unionOf recordOf)

namespace Schema

/-- A reference inside an expression. -/
inductive Mention where
  | direct (name : String)
  | deferred (name : String)
deriving DecidableEq

def Mention.name : Mention → String
  | direct n => n
  | deferred n => n

mutual

/-- The references inside an expression, in the order of its text. -/
def Expr.mentions : Expr → List Mention
  | .primitive _ => []
  | .url => []
  | .instanceOf _ => []
  | .literal _ => []
  | .enum _ => []
  | .ref n => [.direct n]
  | .lazy n => [.deferred n]
  | .array e => e.mentions
  | .record k v => k.mentions ++ v.mentions
  | .union es => mentionsAll es
  | .object fields catchall => fieldMentions fields ++ catchallMentions catchall

def mentionsAll : List Expr → List Mention
  | [] => []
  | e :: es => e.mentions ++ mentionsAll es

def fieldMentions : List (FieldOf Expr) → List Mention
  | [] => []
  | ⟨_, expr, _⟩ :: fs => expr.mentions ++ fieldMentions fs

def catchallMentions : Option Expr → List Mention
  | none => []
  | some e => e.mentions

end

/-- What a reference says about the name: it can be read now, or only later. -/
def Mention.Fits (scope : Scope) : Mention → Prop
  | direct n => n ∈ scope.enums ∨ n ∈ scope.models ∧ n ∈ scope.defined
  | deferred n => n ∈ scope.models ∧ n ∉ scope.defined

lemma mentions_unionOf (es : List Expr) : (unionOf es).mentions = mentionsAll es := by
  rcases es with _ | ⟨e, _ | ⟨e', es⟩⟩ <;> simp [unionOf, Expr.mentions, mentionsAll]

lemma mentions_recordOf_subset (key : KeyKind) (e : Expr) :
    (recordOf key e).mentions ⊆ e.mentions := by
  cases key <;> simp [recordOf, Expr.mentions, Expr.unknown]

lemma mentions_intrinsicOf (name : String) : (intrinsicOf name).mentions = [] := by
  unfold intrinsicOf
  split <;> rfl

lemma mentionsAll_eq_nil {es : List Expr} (h : ∀ e ∈ es, e.mentions = []) :
    mentionsAll es = [] := by
  induction es with
  | nil => rfl
  | cons e es ih =>
    rw [mentionsAll, h e (by simp), ih fun e' he' => h e' (by simp [he']), List.append_nil]

end Schema

open Schema

variable {scope : Scope} {x : Mention}

lemma mentions_scalar (s : ScalarRef) : s.expr.mentions = [] := by
  unfold ScalarRef.expr
  split
  · rename_i f _
    cases f <;> rfl
  · rfl

lemma mention_modelExpr {name : String} (h : x ∈ (scope.modelExpr name).mentions) :
    x.name ∈ (if name ∈ scope.models then [name] else []) ∧ x.Fits scope := by
  unfold Scope.modelExpr at h
  split_ifs at h with hm hd
  · obtain rfl : x = .direct name := by simpa [Expr.mentions] using h
    exact ⟨by simp [Mention.name, hm], Or.inr ⟨hm, hd⟩⟩
  · obtain rfl : x = .deferred name := by simpa [Expr.mentions] using h
    exact ⟨by simp [Mention.name, hm], hm, hd⟩
  · simp [Expr.unknown, Expr.mentions] at h

lemma mention_enumExpr {name : String} (h : x ∈ (scope.enumExpr name).mentions) :
    x.name ∈ (if name ∈ scope.enums then [name] else []) ∧ x.Fits scope := by
  unfold Scope.enumExpr at h
  split_ifs at h with he
  · obtain rfl : x = .direct name := by simpa [Expr.mentions] using h
    exact ⟨by simp [Mention.name, he], Or.inl he⟩
  · simp [Expr.unknown, Expr.mentions] at h

mutual

/-- Validators of nodes mention only what the node refers to, each name as the scope has it. -/
theorem TypeNode.mention_expr (t : TypeNode) (h : x ∈ (t.expr scope).mentions) :
    x.name ∈ t.references scope ∧ x.Fits scope := by
  cases t with
  | scalar s => simp [TypeNode.expr, mentions_scalar] at h
  | model name indexer =>
    cases indexer with
    | none => exact mention_modelExpr h
    | some ix =>
      obtain ⟨key, value⟩ := ix
      rw [TypeNode.expr_model] at h
      rw [TypeNode.references_model]
      split_ifs at h with ha hr
      · simpa [ha] using value.mention_expr h
      · have hv := mentions_recordOf_subset _ _ h
        simpa [hr] using value.mention_expr hv
      · simpa [ha, hr] using mention_modelExpr h
  | enum name => exact mention_enumExpr h
  | union variants =>
    rw [TypeNode.expr, mentions_unionOf] at h
    exact mention_exprAll variants h
  | array element => exact element.mention_expr h
  | map key value => exact value.mention_expr (mentions_recordOf_subset _ _ h)
  | object properties =>
    refine mention_propertyFields properties ?_
    simpa [TypeNode.expr, Expr.mentions, catchallMentions] using h
  | literal v => simp [TypeNode.expr, Expr.mentions] at h
  | intrinsic name => simp [TypeNode.expr, mentions_intrinsicOf] at h
  | unrecognized => simp [TypeNode.expr, Expr.unknown, Expr.mentions] at h

theorem mention_exprAll (ts : List TypeNode) (h : x ∈ mentionsAll (exprAll scope ts)) :
    x.name ∈ referencesAll scope ts ∧ x.Fits scope := by
  cases ts with
  | nil => simp [exprAll, mentionsAll] at h
  | cons t ts =>
    rcases List.mem_append.1 h with h | h
    · exact ⟨List.mem_append_left _ (t.mention_expr h).1, (t.mention_expr h).2⟩
    · exact ⟨List.mem_append_right _ (mention_exprAll ts h).1, (mention_exprAll ts h).2⟩

theorem mention_propertyFields (ps : List (PropertyOf TypeNode))
    (h : x ∈ fieldMentions (propertyFields scope ps)) :
    x.name ∈ propertyReferences scope ps ∧ x.Fits scope := by
  cases ps with
  | nil => simp [propertyFields, fieldMentions] at h
  | cons p ps =>
    obtain ⟨_, type, _⟩ := p
    rcases List.mem_append.1 h with h | h
    · exact ⟨List.mem_append_left _ (type.mention_expr h).1, (type.mention_expr h).2⟩
    · exact ⟨List.mem_append_right _ (mention_propertyFields ps h).1,
        (mention_propertyFields ps h).2⟩

end

/-- The scopes know the same models and enums; they may differ in what is defined. -/
structure Scope.Alike (a b : Scope) : Prop where
  models : ∀ n, n ∈ a.models ↔ n ∈ b.models
  enums : ∀ n, n ∈ a.enums ↔ n ∈ b.enums

mutual

/-- What a node refers to depends only on which names are known. -/
theorem TypeNode.references_congr {scope' : Scope} (h : scope.Alike scope') (t : TypeNode) :
    t.references scope = t.references scope' := by
  cases t with
  | scalar | literal | intrinsic | unrecognized => rfl
  | model name indexer =>
    cases indexer with
    | none => simp [TypeNode.references, h.models name]
    | some ix =>
      obtain ⟨key, value⟩ := ix
      simp only [TypeNode.references_model, h.models name, value.references_congr h]
  | enum name => simp [TypeNode.references, h.enums name]
  | union variants => exact referencesAll_congr h variants
  | array element => exact element.references_congr h
  | map key value => exact value.references_congr h
  | object properties => exact propertyReferences_congr h properties

theorem referencesAll_congr {scope' : Scope} (h : scope.Alike scope') (ts : List TypeNode) :
    referencesAll scope ts = referencesAll scope' ts := by
  cases ts with
  | nil => rfl
  | cons t ts =>
    rw [referencesAll, t.references_congr h, referencesAll_congr h ts, referencesAll]

theorem propertyReferences_congr {scope' : Scope} (h : scope.Alike scope')
    (ps : List (PropertyOf TypeNode)) :
    propertyReferences scope ps = propertyReferences scope' ps := by
  cases ps with
  | nil => rfl
  | cons p ps =>
    obtain ⟨_, type, _⟩ := p
    rw [propertyReferences, type.references_congr h, propertyReferences_congr h ps,
      propertyReferences]

end

lemma Model.dependencies_congr {scope' : Scope} (h : scope.Alike scope') (m : Model) :
    m.dependencies scope = m.dependencies scope' := by
  unfold Model.dependencies
  rcases m.indexer with _ | ix
  · simp only [propertyReferences_congr h]
  · simp only [propertyReferences_congr h, ix.value.references_congr h]

/-- The validator of a model holds the references of its properties and of its indexer. -/
lemma mention_modelParts {m : Model} (h : x ∈ (m.expr scope).mentions) :
    x ∈ fieldMentions (propertyFields scope m.properties) ∨
      ∃ ix, m.indexer = some ix ∧ x ∈ (ix.value.expr scope).mentions := by
  unfold Model.expr at h
  rcases hix : m.indexer with _ | ix
  · left
    simpa [hix, Expr.mentions, catchallMentions] using h
  · simp only [hix] at h
    split at h <;> simp_all [Expr.mentions, catchallMentions]

theorem Model.mention_expr {m : Model} (h : x ∈ (m.expr scope).mentions) :
    (x.name = m.name ∨ x.name ∈ m.dependencies scope) ∧ x.Fits scope := by
  have key : ∀ n, n ∈ propertyReferences scope m.properties ∨
      (∃ ix, m.indexer = some ix ∧ n ∈ ix.value.references scope) →
      n = m.name ∨ n ∈ m.dependencies scope := by
    intro n hn
    by_cases hself : n = m.name
    · exact Or.inl hself
    · right
      simp only [Model.dependencies, List.mem_filter, List.mem_eraseDups, List.mem_append]
      refine ⟨?_, by simpa using hself⟩
      rcases hn with hn | ⟨ix, hix, hn⟩
      · exact Or.inl hn
      · exact Or.inr (by simpa [hix] using hn)
  rcases mention_modelParts h with h | ⟨ix, hix, h⟩
  · obtain ⟨href, hfits⟩ := mention_propertyFields m.properties h
    exact ⟨key _ (Or.inl href), hfits⟩
  · obtain ⟨href, hfits⟩ := ix.value.mention_expr h
    exact ⟨key _ (Or.inr ⟨ix, hix, href⟩), hfits⟩

/-- Enums refer to nothing. -/
theorem Enumeration.mentions_expr (e : Enumeration) : e.expr.mentions = [] := by
  unfold Enumeration.expr
  split_ifs
  · rfl
  · rw [mentions_unionOf]
    refine mentionsAll_eq_nil fun e' he' => ?_
    obtain ⟨m, -, rfl⟩ := List.mem_map.1 he'
    rfl
  · rfl

end ZodGraph
