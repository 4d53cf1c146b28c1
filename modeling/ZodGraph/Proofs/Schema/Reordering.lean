import ZodGraph.Proofs.Schema.Once
import ZodGraph.Proofs.Selection.Declared

/-!
The schemas of a graph do not depend on the order of its declarations. A scope decides only two
things about a validator: which names are known, and which references are deferred. Declarations
in another order give the same known names, so the same definitions once nothing is deferred.
-/

namespace ZodGraph

open Schema (Expr Definition FieldOf unionOf recordOf)

namespace Schema

mutual

/-- The expression with every deferred reference made a direct one. -/
def Expr.forced : Expr → Expr
  | .primitive p => .primitive p
  | .url => .url
  | .instanceOf c => .instanceOf c
  | .literal v => .literal v
  | .enum vs => .enum vs
  | .ref n => .ref n
  | .lazy n => .ref n
  | .array e => .array e.forced
  | .record k v => .record k.forced v.forced
  | .union es => .union (forcedAll es)
  | .object fields catchall => .object (forcedFields fields) (forcedCatchall catchall)

def forcedAll : List Expr → List Expr
  | [] => []
  | e :: es => e.forced :: forcedAll es

def forcedFields : List (FieldOf Expr) → List (FieldOf Expr)
  | [] => []
  | ⟨name, expr, optional⟩ :: fs => ⟨name, expr.forced, optional⟩ :: forcedFields fs

def forcedCatchall : Option Expr → Option Expr
  | none => none
  | some e => some e.forced

end

def Definition.forced (d : Definition) : Definition := ⟨d.name, d.expr.forced⟩

lemma forced_unionOf (es : List Expr) : (unionOf es).forced = unionOf (forcedAll es) := by
  rcases es with _ | ⟨e, _ | ⟨e', es⟩⟩ <;> simp [unionOf, Expr.forced, forcedAll]

lemma forced_recordOf (key : KeyKind) (e : Expr) :
    (recordOf key e).forced = recordOf key e.forced := by
  cases key <;> simp [recordOf, Expr.forced, Expr.unknown]

lemma map_name_forced (ds : List Definition) :
    (ds.map Definition.forced).map Definition.name = ds.map Definition.name := by
  rw [List.map_map]
  rfl

/-- Where definitions agree up to order and deferral, a name tells the expression. -/
lemma forced_expr_eq_of_name {ds ds' : List Definition} {d d' : Definition}
    (hnodup : (ds'.map Definition.name).Nodup)
    (hperm : (ds.map Definition.forced).Perm (ds'.map Definition.forced))
    (hd : d ∈ ds) (hd' : d' ∈ ds') (hname : d.name = d'.name) :
    d.expr.forced = d'.expr.forced := by
  have hmem : d.forced ∈ ds'.map Definition.forced := hperm.subset (List.mem_map_of_mem hd)
  obtain ⟨other, hother, heq⟩ := List.mem_map.1 hmem
  have hother_name : other.name = d'.name := (congrArg Definition.name heq).trans hname
  obtain rfl : other = d' := List.inj_on_of_nodup_map hnodup hother hd' hother_name
  exact (congrArg Definition.expr heq).symm

end Schema

/-! ### Scopes that know the same names -/

section Alike

variable {a b : Scope}

lemma Scope.Alike.refl (a : Scope) : a.Alike a := ⟨fun _ => Iff.rfl, fun _ => Iff.rfl⟩

lemma Scope.Alike.define (h : a.Alike b) (name : String) : (a.define name).Alike b :=
  ⟨h.models, h.enums⟩

lemma Scope.forced_modelExpr (a : Scope) (name : String) :
    (a.modelExpr name).forced = if name ∈ a.models then .ref name else .unknown := by
  unfold Scope.modelExpr
  split_ifs <;> simp [Expr.forced, Expr.unknown]

lemma Scope.Alike.forced_modelExpr (h : a.Alike b) (name : String) :
    (a.modelExpr name).forced = (b.modelExpr name).forced := by
  have hmem := h.models name
  rw [a.forced_modelExpr, b.forced_modelExpr]
  simp only [hmem]

lemma Scope.Alike.enumExpr (h : a.Alike b) (name : String) :
    a.enumExpr name = b.enumExpr name := by
  have hmem := h.enums name
  unfold Scope.enumExpr
  simp only [hmem]

mutual

/-- What is defined decides only which references are deferred. -/
theorem TypeNode.forced_expr (h : a.Alike b) (t : TypeNode) :
    (t.expr a).forced = (t.expr b).forced := by
  cases t with
  | scalar | literal | intrinsic | unrecognized => rfl
  | model name indexer =>
    cases indexer with
    | none => exact h.forced_modelExpr name
    | some ix =>
      obtain ⟨key, value⟩ := ix
      have hvalue := value.forced_expr h
      rw [TypeNode.expr_model, TypeNode.expr_model]
      split_ifs
      · rw [Expr.forced, hvalue, Expr.forced]
      · rw [Schema.forced_recordOf, hvalue, Schema.forced_recordOf]
      · exact h.forced_modelExpr name
  | enum name => exact congrArg Expr.forced (h.enumExpr name)
  | union variants =>
    rw [TypeNode.expr, TypeNode.expr, Schema.forced_unionOf, Schema.forced_unionOf,
      forcedAll_exprAll h variants]
  | array element =>
    rw [TypeNode.expr, TypeNode.expr, Expr.forced, Expr.forced, element.forced_expr h]
  | map key value =>
    rw [TypeNode.expr, TypeNode.expr, Schema.forced_recordOf, Schema.forced_recordOf,
      value.forced_expr h]
  | object properties =>
    rw [TypeNode.expr, TypeNode.expr, Expr.forced, Expr.forced,
      forcedFields_propertyFields h properties]

theorem forcedAll_exprAll (h : a.Alike b) (ts : List TypeNode) :
    Schema.forcedAll (exprAll a ts) = Schema.forcedAll (exprAll b ts) := by
  cases ts with
  | nil => rfl
  | cons t ts =>
    rw [exprAll, exprAll, Schema.forcedAll, Schema.forcedAll, t.forced_expr h,
      forcedAll_exprAll h ts]

theorem forcedFields_propertyFields (h : a.Alike b) (ps : List (PropertyOf TypeNode)) :
    Schema.forcedFields (propertyFields a ps) = Schema.forcedFields (propertyFields b ps) := by
  cases ps with
  | nil => rfl
  | cons p ps =>
    obtain ⟨name, type, optional⟩ := p
    rw [propertyFields, propertyFields, Schema.forcedFields, Schema.forcedFields,
      type.forced_expr h, forcedFields_propertyFields h ps]

end

theorem Model.forced_expr (h : a.Alike b) (m : Model) :
    (m.expr a).forced = (m.expr b).forced := by
  have hfields := forcedFields_propertyFields h m.properties
  rcases hix : m.indexer with _ | ⟨key, value⟩
  · simp only [Model.expr, hix, Expr.forced, hfields]
  · have hvalue := value.forced_expr h
    rcases hps : m.properties with _ | ⟨⟨name, type, optional⟩, ps⟩
    · -- the whole model is an array or a record
      cases key <;> simp only [Model.expr, hix, hps, propertyFields, Expr.forced, hvalue]
    · rw [hps, propertyFields, propertyFields] at hfields
      cases key <;> simp only [Model.expr, hix, hps, propertyFields, Expr.forced, hfields,
        Schema.forcedCatchall, hvalue]

/-- Whatever the order, a model gets one definition up to deferral. -/
lemma forced_defineModels (h : a.Alike b) (ms : List Model) :
    (defineModels a ms).map Definition.forced =
      ms.map fun m => ⟨m.name, (m.expr b).forced⟩ := by
  induction ms generalizing a with
  | nil => rfl
  | cons m ms ih =>
    rw [defineModels, List.map_cons, List.map_cons, ih (h.define m.name), Definition.forced,
      m.forced_expr h]

end Alike

/-! ### Modules of permuted selections -/

namespace Selection

variable {s t : Selection}

lemma alike_scope (hm : s.models.Perm t.models) (he : s.enums.Perm t.enums) :
    s.scope.Alike t.scope where
  models _ := (hm.map Model.name).mem_iff
  enums _ := (he.map Enumeration.name).mem_iff

/-- The models of a module without repeated names, in the order of the selection. -/
lemma forced_models_perm (h : s.names.Nodup) (o : Options) :
    ((s.module o).models.map Definition.forced).Perm
      (s.models.map fun m => ⟨m.name, (m.expr s.scope).forced⟩) := by
  have hforced := forced_defineModels (Scope.Alike.refl s.scope) s.dependencyGraph.order
  rw [Selection.module, hforced]
  exact (perm_order h).map _

lemma names_nodup_of_perm (hm : s.models.Perm t.models) (he : s.enums.Perm t.enums)
    (h : s.names.Nodup) : t.names.Nodup := by
  have hperm : s.names.Perm t.names := (hm.map Model.name).append (he.map Enumeration.name)
  exact hperm.nodup_iff.1 h

lemma forced_models_perm_of_perm (hm : s.models.Perm t.models) (he : s.enums.Perm t.enums)
    (h : s.names.Nodup) (o o' : Options) :
    ((s.module o).models.map Definition.forced).Perm
      ((t.module o').models.map Definition.forced) := by
  have halike := alike_scope hm he
  have hs := forced_models_perm h o
  have ht := forced_models_perm (names_nodup_of_perm hm he h) o'
  have hexprs : (s.models.map fun m : Model => (⟨m.name, (m.expr s.scope).forced⟩ : Definition)) =
      s.models.map fun m => ⟨m.name, (m.expr t.scope).forced⟩ := by
    refine List.map_congr_left fun m _ => ?_
    rw [m.forced_expr halike]
  rw [hexprs] at hs
  exact (hs.trans (hm.map _)).trans ht.symm

lemma enums_perm_of_perm (he : s.enums.Perm t.enums) (o o' : Options) :
    (s.module o).enums.Perm (t.module o').enums :=
  he.map _

lemma nodup_definitions (h : s.names.Nodup) (o : Options) :
    ((s.module o).definitions.map Definition.name).Nodup := by
  have hidents := nodup_identifiers h o
  have hcomp : (fun d : Definition => Schema.identifier d.name) =
      Schema.identifier ∘ Definition.name := rfl
  rw [hcomp, ← List.map_map] at hidents
  exact hidents.of_map

lemma forced_definitions_perm (hm : s.models.Perm t.models) (he : s.enums.Perm t.enums)
    (h : s.names.Nodup) (o o' : Options) :
    ((s.module o).definitions.map Definition.forced).Perm
      ((t.module o').definitions.map Definition.forced) := by
  have henums := (enums_perm_of_perm he o o').map Definition.forced
  have hmodels := forced_models_perm_of_perm hm he h o o'
  rw [Schema.Module.definitions, Schema.Module.definitions, List.map_append, List.map_append]
  exact henums.append hmodels

end Selection

/-! ### Graphs with permuted declarations -/

namespace Namespace

variable {a b : Namespace}

/-- Where no two declarations contend for a name, all that may have a validator get one. -/
lemma chosen_of_nodup (h : ((a.visible.filter fun d => d.Eligible).map Declaration.name).Nodup) :
    a.chosen = a.visible.filter fun d => d.Eligible := by
  unfold chosen
  generalize (a.visible.filter fun d => d.Eligible) = ds at h
  induction ds with
  | nil => rfl
  | cons d ds ih =>
    obtain ⟨hd, hds⟩ := List.nodup_cons.1 h
    have hkeep : ds.filter (fun e => decide ((e.name == d.name) = false)) = ds := by
      refine List.filter_eq_self.2 fun e he => ?_
      have hne : e.name ≠ d.name := fun heq => hd (heq ▸ List.mem_map_of_mem he)
      simpa using hne
    rw [List.eraseDupsBy_cons, hkeep, ih hds]

lemma selection_perm_of_visible (h : a.visible.Perm b.visible)
    (hfree : ((a.visible.filter fun d => d.Eligible).map Declaration.name).Nodup) :
    a.selection.models.Perm b.selection.models ∧ a.selection.enums.Perm b.selection.enums := by
  have hok := h.filter fun d => decide d.Eligible
  have hfree' := (hok.map Declaration.name).nodup_iff.1 hfree
  rw [selection_eq, selection_eq, chosen_of_nodup hfree, chosen_of_nodup hfree']
  exact ⟨hok.filterMap _, hok.filterMap _⟩

/-- **The order of declarations does not matter**: graphs that select the same models and enums,
in any order, define the same names, and for each name the same expression once nothing is
deferred. So where no two declarations contend for a name, declarations may be put in another
order or into other namespaces outside the framework: only the order of the definitions and the
choice of what is deferred can change. -/
theorem schemas_of_permuted (a b : Namespace) (o : Options) :
    (a.selection.models.Perm b.selection.models → a.selection.enums.Perm b.selection.enums →
      (∀ n, n ∈ (a.selection.module o).definitions.map Definition.name ↔
        n ∈ (b.selection.module o).definitions.map Definition.name) ∧
      ∀ d ∈ (a.selection.module o).definitions, ∀ d' ∈ (b.selection.module o).definitions,
        d.name = d'.name → d.expr.forced = d'.expr.forced) ∧
    (a.visible.Perm b.visible →
      ((a.visible.filter fun d => d.Eligible).map Declaration.name).Nodup →
      (a.selection.module o).imports = (b.selection.module o).imports ∧
      (a.selection.module o).metadata = (b.selection.module o).metadata ∧
      (a.selection.module o).enums.Perm (b.selection.module o).enums ∧
      ((a.selection.module o).models.map Definition.forced).Perm
        ((b.selection.module o).models.map Definition.forced)) := by
  refine ⟨fun hm he => ?_, fun hvisible hfree => ?_⟩
  · have hperm := Selection.forced_definitions_perm hm he a.nodup_selection o o
    have hnames := hperm.map Definition.name
    rw [Schema.map_name_forced, Schema.map_name_forced] at hnames
    have hnodup := Selection.nodup_definitions b.nodup_selection o
    exact ⟨fun n => hnames.mem_iff, fun d hd d' hd' hname =>
      Schema.forced_expr_eq_of_name hnodup hperm hd hd' hname⟩
  · obtain ⟨hm, he⟩ := selection_perm_of_visible hvisible hfree
    exact ⟨rfl, rfl, Selection.enums_perm_of_perm he o o,
      Selection.forced_models_perm_of_perm hm he a.nodup_selection o o⟩

def writer : Model where
  name := "Writer"
  properties := [⟨"posts", .array (.model "Post" none), true⟩]

def post : Model where
  name := "Post"
  properties := [⟨"writer", .model "Writer" none, false⟩, ⟨"status", .enum "Status", false⟩]

def status : Enumeration where
  name := "Status"
  members := [⟨"draft", none⟩, ⟨"live", none⟩]

/-- Two models that refer to each other, in one namespace. -/
def blog : Namespace where
  name := "Blog"
  models := [writer, post]
  enums := [status]

/-- The same declarations by topic, so that the other model comes first. -/
def blogByTopic : Namespace where
  name := ""
  entries := [
    .child { name := "Posts", models := [post], enums := [status] },
    .malformed .null,
    .child { name := "People", models := [writer] }]

/-- The definition of a writer, with a way to refer to a post. -/
def writerSchema (post : Expr) : Definition :=
  ⟨"Writer", .object [⟨"posts", .array post, true⟩] none⟩

/-- The definition of a post, with a way to refer to a writer. -/
def postSchema (writer : Expr) : Definition :=
  ⟨"Post", .object [⟨"writer", writer, false⟩, ⟨"status", .ref "Status", false⟩] none⟩

theorem schemas_of_permuted_blog :
    blog.visible.Perm blogByTopic.visible ∧
    ((blog.visible.filter fun d => d.Eligible).map Declaration.name).Nodup ∧
    blog.selection.models.Perm blogByTopic.selection.models ∧
    blog.selection.enums.Perm blogByTopic.selection.enums ∧
    (blog.selection.module {}).models =
      [postSchema (.lazy "Writer"), writerSchema (.ref "Post")] ∧
    (blogByTopic.selection.module {}).models =
      [writerSchema (.lazy "Post"), postSchema (.ref "Writer")] ∧
    (postSchema (.lazy "Writer")).expr ≠ (postSchema (.ref "Writer")).expr ∧
    (postSchema (.lazy "Writer")).expr.forced = (postSchema (.ref "Writer")).expr.forced ∧
    ("Post" ∈ (blog.selection.module {}).definitions.map Definition.name ↔
      "Post" ∈ (blogByTopic.selection.module {}).definitions.map Definition.name) ∧
    ((blog.selection.module {}).models.map Definition.forced).Perm
      ((blogByTopic.selection.module {}).models.map Definition.forced) := by
  have hvisible : blog.visible.Perm blogByTopic.visible := by
    change [Declaration.model writer, .model post, .enum status].Perm
      [.model post, .enum status, .model writer]
    exact @List.perm_append_comm _ [_] [_, _]
  have hfree : ((blog.visible.filter fun d => d.Eligible).map Declaration.name).Nodup := by decide
  have hmodels : blog.selection.models.Perm blogByTopic.selection.models := List.Perm.swap _ _ _
  have henums : blog.selection.enums.Perm blogByTopic.selection.enums := List.Perm.refl _
  have hblog : (blog.selection.module {}).models =
      [postSchema (.lazy "Writer"), writerSchema (.ref "Post")] := rfl
  have hbyTopic : (blogByTopic.selection.module {}).models =
      [writerSchema (.lazy "Post"), postSchema (.ref "Writer")] := rfl
  have hlazy : postSchema (.lazy "Writer") ∈ (blog.selection.module {}).definitions :=
    List.mem_append_right _ (by rw [hblog]; exact List.mem_cons_self)
  have href : postSchema (.ref "Writer") ∈ (blogByTopic.selection.module {}).definitions :=
    List.mem_append_right _ (by rw [hbyTopic]; exact List.mem_cons_of_mem _ List.mem_cons_self)
  obtain ⟨hsame, hmoved⟩ := schemas_of_permuted blog blogByTopic {}
  obtain ⟨hnames, hexprs⟩ := hsame hmodels henums
  obtain ⟨-, -, -, hforced⟩ := hmoved hvisible hfree
  exact ⟨hvisible, hfree, hmodels, henums, hblog, hbyTopic, by simp [postSchema],
    hexprs _ hlazy _ href rfl, hnames "Post", hforced⟩

end Namespace

end ZodGraph
