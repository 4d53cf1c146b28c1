import ZodGraph.Proofs.Graph.Lenient
import ZodGraph.Proofs.Json.Fields
import ZodGraph.Proofs.Json.Follow

/-!
How graphs are written in JSON, and that they are read back. An object has each of its known keys
at most once and in any order; what is left out has its default, and other keys are free. Numbers
are whole, so that no value depends on how a double is printed.
-/

namespace ZodGraph

open Json Json.Source

/-! ### The format -/

inductive KeyKind.Written : KeyKind → Json → Prop
  | string : Written string (.str "string")
  | integer : Written integer (.str "integer")
  | other {s : String} : s ≠ "string" → s ≠ "integer" → Written other (.str s)

inductive Origin.Written : Origin → Json → Prop
  | user : Written user (.str "user")
  | library : Written library (.str "library")

/-- Doubles are left out, and whole numbers have 63 bits and a sign. -/
inductive Literal.Written : Literal → Json → Prop
  | bool {b : Bool} : Written (bool b) (.bool b)
  | int {n : Int} : n ≤ maxInt → Written (int n) (.int n)
  | string {s : String} : Written (string s) (.str s)

inductive MemberValue.Written : MemberValue → Json → Prop
  | int {n : Int} : n ≤ maxInt → Written (int n) (.int n)
  | string {s : String} : Written (string s) (.str s)

inductive ScalarRef.Written : ScalarRef → Json → Prop
  | intro {name : String} {bases : List String} {es : List (String × Json)} :
    Once es "name" (.str name) →
    HoldsOr "base" (NullableWritten Written) none (ScalarRef.mk name bases).base? es →
    Written ⟨name, bases⟩ (.obj es)

inductive PropertyOf.Written (Node : TypeNode → Json → Prop) : Property → Json → Prop
  | intro {name : String} {type : TypeNode} {optional : Bool} {es : List (String × Json)} :
    Once es "name" (.str name) →
    HoldsOr "type" Node .unrecognized type es →
    HoldsOr "optional" FlagWritten false optional es →
    Written Node ⟨name, type, optional⟩ (.obj es)

inductive IndexerOf.Written (Node : TypeNode → Json → Prop) : Indexer → Json → Prop
  | intro {key : KeyKind} {value : TypeNode} {es : List (String × Json)} {k v : Json} :
    Once es "key" k → key.Written k →
    Once es "value" v → Node value v →
    Written Node ⟨key, value⟩ (.obj es)

/-- The kinds of nodes that are known. -/
def TypeNode.kinds : List String :=
  ["scalar", "model", "enum", "union", "array", "map", "object", "literal", "intrinsic"]

/-- A node is an object with its kind; any other kind is unrecognized. -/
inductive TypeNode.Written : TypeNode → Json → Prop
  | scalar {s : ScalarRef} {es : List (String × Json)} :
    Once es "kind" (.str "scalar") → s.Written (.obj es) → Written (scalar s) (.obj es)
  | model {name : String} {indexer : Option Indexer} {es : List (String × Json)} :
    Once es "kind" (.str "model") → Once es "name" (.str name) →
    HoldsOr "indexer" (NullableWritten (IndexerOf.Written Written)) none indexer es →
    Written (model name indexer) (.obj es)
  | enum {name : String} {es : List (String × Json)} :
    Once es "kind" (.str "enum") → Once es "name" (.str name) → Written (enum name) (.obj es)
  | union {variants : List TypeNode} {es : List (String × Json)} :
    Once es "kind" (.str "union") → HoldsOr "variants" (ListWritten Written) [] variants es →
    Written (union variants) (.obj es)
  | array {element : TypeNode} {es : List (String × Json)} {v : Json} :
    Once es "kind" (.str "array") → Once es "element" v → Written element v →
    Written (array element) (.obj es)
  | map {key : KeyKind} {value : TypeNode} {es : List (String × Json)} {k v : Json} :
    Once es "kind" (.str "map") → Once es "key" k → key.Written k →
    Once es "value" v → Written value v → Written (map key value) (.obj es)
  | object {properties : List Property} {es : List (String × Json)} :
    Once es "kind" (.str "object") →
    HoldsOr "properties" (ListWritten (PropertyOf.Written Written)) [] properties es →
    Written (object properties) (.obj es)
  | literal {value : Literal} {es : List (String × Json)} {v : Json} :
    Once es "kind" (.str "literal") → Once es "value" v → value.Written v →
    Written (literal value) (.obj es)
  | intrinsic {name : String} {es : List (String × Json)} :
    Once es "kind" (.str "intrinsic") → Once es "name" (.str name) →
    Written (intrinsic name) (.obj es)
  | unrecognized {kind : String} {es : List (String × Json)} :
    Once es "kind" (.str kind) → kind ∉ kinds → Written unrecognized (.obj es)

inductive Model.Written : Model → Json → Prop
  | intro {m : Model} {es : List (String × Json)} :
    Once es "name" (.str m.name) →
    HoldsOr "properties" (ListWritten (PropertyOf.Written TypeNode.Written)) [] m.properties es →
    HoldsOr "indexer" (NullableWritten (IndexerOf.Written TypeNode.Written)) none m.indexer es →
    HoldsOr "intrinsic" FlagWritten false m.intrinsic es →
    HoldsOr "templateParameters" (ListWritten TextWritten) [] m.templateParameters es →
    HoldsOr "origin" Origin.Written .user m.origin es →
    Written m (.obj es)

inductive Member.Written : Member → Json → Prop
  | intro {m : Member} {es : List (String × Json)} :
    Once es "name" (.str m.name) →
    HoldsOr "value" (NullableWritten MemberValue.Written) none m.value es →
    Written m (.obj es)

inductive Enumeration.Written : Enumeration → Json → Prop
  | intro {e : Enumeration} {es : List (String × Json)} :
    Once es "name" (.str e.name) →
    HoldsOr "members" (ListWritten Member.Written) [] e.members es →
    HoldsOr "origin" Origin.Written .user e.origin es →
    Written e (.obj es)

/-- A malformed entry is written as what it holds, with the keys of its objects in any order. -/
inductive EntryOf.Written (Tree : Namespace → Json → Prop) : Entry → Json → Prop
  | child {c : Namespace} {j : Json} : Tree c j → Written Tree (child c) j
  | malformed {v j : Json} : j.collapse = v → Written Tree (malformed v) j

inductive Namespace.Written : Namespace → Json → Prop
  | intro {name : String} {entries : List Entry} {models : List Model} {enums : List Enumeration}
    {es : List (String × Json)} :
    Once es "name" (.str name) →
    HoldsOr "namespaces" (ListWritten (EntryOf.Written Written)) [] entries es →
    HoldsOr "models" (ListWritten Model.Written) [] models es →
    HoldsOr "enums" (ListWritten Enumeration.Written) [] enums es →
    Written ⟨name, entries, models, enums⟩ (.obj es)

/-- No entry that is kept as malformed, at any level, reads as a namespace. -/
inductive Namespace.Truthful : Namespace → Prop
  | intro {ns : Namespace} : (∀ c, .child c ∈ ns.entries → Truthful c) →
    (∀ v, .malformed v ∈ ns.entries → ∀ c, ofJson v ≠ .ok c) → Truthful ns

/-! ### Scalars -/

section Scalars

variable {j : Json}

lemma KeyKind.Written.steady {k : KeyKind} (h : k.Written j) :
    Steady (KeyKind.reader : FromValue KeyKind) j k := by
  cases h with
  | string => exact .of_flat rfl rfl
  | integer => exact .of_flat rfl rfl
  | @other s hs hi =>
    have hname : KeyKind.ofName s = .other := by
      unfold KeyKind.ofName
      split <;> simp_all
    exact (steady_text s).refine (congrArg Except.ok hname)

lemma Origin.Written.steady {o : Origin} (h : o.Written j) :
    Steady (Origin.reader : FromValue Origin) j o := by
  cases h <;> exact .of_flat rfl rfl

lemma Literal.Written.steady {l : Literal} (h : l.Written j) :
    Steady (refine any Literal.ofJson : FromValue Literal) j l := by
  cases h with
  | bool => exact .of_flat rfl rfl
  | int hn => exact .of_flat rfl (congrArg Except.ok (if_pos hn))
  | string => exact .of_flat rfl rfl

lemma MemberValue.Written.steady {v : MemberValue} (h : v.Written j) :
    j ≠ .null ∧ Steady (refine any MemberValue.ofJson : FromValue MemberValue) j v := by
  cases h with
  | int hn => exact ⟨by simp, .of_flat rfl (congrArg Except.ok (if_pos hn))⟩
  | string => exact ⟨by simp, .of_flat rfl rfl⟩

end Scalars

/-! ### Scalar chains -/

namespace ScalarRef

/-- A scalar is a record whose base is read in the same way. -/
lemma ofJson_eq (j : Json) :
    ofJson j = FromValue.record "struct ScalarRef" { name := "" } (fields ofJson) j := by
  refine @FromValue.levels_eq _ ofJsonAt
    (fun p => FromValue.record "struct ScalarRef" { name := "" } (fields p)) (fun _ => rfl)
    (fun p j hj => ?_) (fun p q j h => ?_) j
  · cases j with
    | arr => simp [Json.depth] at hj
    | obj => simp [Json.depth] at hj
    | _ => rfl
  · have hbase := (h.nullable.defaulted "base" fun v (r : ScalarRef) =>
      { r with bases := v.elim [] fun b => b.name :: b.bases })
    exact FromValue.AgreeBelow.record (.cons (.refl ..) (.cons hbase .nil)) _ _ j
      (Nat.lt_succ_self _)

lemma Written.ne_null {s : ScalarRef} {j : Json} (h : s.Written j) : j ≠ .null := by
  cases h
  simp

lemma Written.changes {s : ScalarRef} {es : List (String × Json)} (h : s.Written (.obj es))
    (hbase : ∀ v b, v.depth < Json.depth (.obj es) → Written b v → Steady ofJson v b) :
    ∃ sets, List.Forall₂ (Change { name := "" } es) (fields ofJson) sets ∧
      sets.Pairwise Independent ∧ applyAll sets { name := "" } = s := by
  cases h with
  | @intro name bases _ hname hbases =>
    have hchain (v : Json) (hv : v.depth < Json.depth (.obj es))
        (hw : NullableWritten Written (ScalarRef.mk name bases).base? v) :
        Steady (FromValue.nullable ofJson) v (ScalarRef.mk name bases).base? :=
      hw.steady fun b hb => ⟨hb.ne_null, hbase v b hv hb⟩
    refine ⟨_, .cons (hname.change (steady_text name)) (.cons (hbases.change rfl hchain) .nil),
      by simp [Independent], ?_⟩
    cases bases <;> rfl

theorem Written.steady {s : ScalarRef} {j : Json} (h : s.Written j) : Steady ofJson j s := by
  induction hn : j.depth using Nat.strong_induction_on generalizing s j with
  | _ n ih =>
    cases h with
    | @intro name bases es hname hbases =>
      obtain ⟨sets, hchanges, hcomm, hs⟩ := Written.changes (.intro hname hbases)
        fun v b hv hb => ih v.depth (hn ▸ hv) hb rfl
      rw [show ofJson = _ from funext ofJson_eq]
      exact steady_record (by simp [fields]) hcomm hchanges hs

end ScalarRef

/-! ### Nodes -/

lemma TypeNode.steady_slot {node : FromValue TypeNode} {j : Json} {t : TypeNode}
    (h : Steady node j t) : Steady (slot node : FromValue TypeNode) j t := by
  have hslot (i : Json) (hi : i.collapse = j.collapse) :
      (slot node : FromValue TypeNode) i = .ok t := by
    change Except.ok ((node i.collapse).toOption.getD unrecognized) = .ok t
    rw [hi, h.collapsed]
    rfl
  exact ⟨hslot j rfl, hslot j.collapse (collapse_collapse j)⟩

section Below

variable {Node : TypeNode → Json → Prop} {node : FromValue TypeNode} {j : Json}

lemma PropertyOf.Written.steady {p : Property} (h : PropertyOf.Written Node p j)
    (hnode : ∀ t i, i.depth < j.depth → Node t i → Steady node i t) :
    Steady (PropertyOf.reader node : FromValue Property) j p := by
  cases h with
  | @intro name type optional es hname htype hoptional =>
    have hslot (v : Json) (hv : v.depth < Json.depth (.obj es)) (hw : Node type v) :
        Steady (TypeNode.slot node : FromValue TypeNode) v type :=
      TypeNode.steady_slot (hnode type v hv hw)
    exact steady_record (by simp) (by simp [Independent])
      (.cons (hname.change (steady_text name)) (.cons (htype.change rfl hslot)
        (.cons (hoptional.change rfl fun _ _ hw => hw.steady) .nil))) rfl

lemma IndexerOf.Written.steady {ix : Indexer} (h : IndexerOf.Written Node ix j)
    (hnode : ∀ t i, i.depth < j.depth → Node t i → Steady node i t) :
    j ≠ .null ∧ Steady (IndexerOf.reader node : FromValue Indexer) j ix := by
  cases h with
  | @intro key value es k v hkey hk hvalue hv =>
    have hslot := TypeNode.steady_slot (hnode value v hvalue.depth_lt hv)
    refine ⟨by simp, steady_record (by simp [fields]) (by simp [Independent])
      (.cons (hkey.change hk.steady) (.cons (hvalue.change hslot) .nil)) rfl⟩

end Below

namespace TypeNode

variable {node : FromValue TypeNode} {t : TypeNode} {j : Json}

lemma ofKind_scalar (j : Json) :
    ofKind node "scalar" j = FromValue.record "struct ScalarRef" { name := "" }
      (ScalarRef.fields ScalarRef.ofJson) j >>= fun s => .ok (scalar s) := by
  rw [← ScalarRef.ofJson_eq]
  change (ScalarRef.ofJson j).map scalar = _
  cases ScalarRef.ofJson j <;> rfl

lemma ofKind_of_not_mem {kind : String} (h : kind ∉ kinds) (es : List (String × Json)) :
    ofKind node kind (.obj es) = .ok unrecognized := by
  unfold ofKind
  split <;> simp_all [kinds]

/-- A node is read by its kind, if the nodes below it are read as they are written. -/
lemma steady_ofKind (h : t.Written j)
    (hnode : ∀ u i, i.depth < j.depth → u.Written i → Steady node i u) :
    Steady (FromValue.tagged "kind" "TypeNode" (ofKind node)) j t := by
  cases h with
  | scalar hkind hs =>
    obtain ⟨sets, hchanges, hcomm, rfl⟩ := hs.changes fun _ _ _ hb => hb.steady
    exact steady_tagged_record scalar hkind ofKind_scalar (by simp [ScalarRef.fields]) hcomm
      hchanges rfl
  | @model name indexer es hkind hname hindexer =>
    have hix (v : Json) (hv : v.depth < Json.depth (.obj es))
        (hw : NullableWritten (IndexerOf.Written Written) indexer v) :
        Steady (FromValue.nullable (IndexerOf.reader node)) v indexer :=
      hw.steady fun ix hix => hix.steady fun u i hi => hnode u i (hi.trans hv)
    exact steady_tagged_record (fun r : String × Option Indexer => model r.1 r.2) hkind
      (fun _ => rfl) (by simp) (by simp [Independent])
      (.cons (hname.change (steady_text name)) (.cons (hindexer.change rfl hix) .nil)) rfl
  | @enum name es hkind hname =>
    exact steady_tagged_record enum hkind (fun _ => rfl) (by simp) (by simp)
      (.cons (hname.change (steady_text name)) .nil) rfl
  | @union variants es hkind hvariants =>
    have hlist (v : Json) (hv : v.depth < Json.depth (.obj es))
        (hw : ListWritten Written variants v) :
        Steady (FromValue.list (slot node)) v variants :=
      hw.steady fun u _ i hi hu => steady_slot (hnode u i (hi.trans hv) hu)
    exact steady_tagged_record union hkind (fun _ => rfl) (by simp) (by simp)
      (.cons (hvariants.change rfl hlist) .nil) rfl
  | @array element es v hkind helement hv =>
    have hslot := steady_slot (hnode element v helement.depth_lt hv)
    exact steady_tagged_record array hkind (fun _ => rfl) (by simp) (by simp)
      (.cons (helement.change hslot) .nil) rfl
  | @map key value es k v hkind hkey hk hvalue hv =>
    have hslot := steady_slot (hnode value v hvalue.depth_lt hv)
    exact steady_tagged_record (fun ix : Indexer => map ix.key ix.value) hkind (fun _ => rfl)
      (by simp [IndexerOf.fields]) (by simp [Independent])
      (.cons (hkey.change hk.steady) (.cons (hvalue.change hslot) .nil)) rfl
  | @object properties es hkind hproperties =>
    have hlist (v : Json) (hv : v.depth < Json.depth (.obj es))
        (hw : ListWritten (PropertyOf.Written Written) properties v) :
        Steady (FromValue.list (PropertyOf.reader node)) v properties :=
      hw.steady fun p _ i hi hp => hp.steady fun u i' hi' => hnode u i' (hi'.trans (hi.trans hv))
    exact steady_tagged_record object hkind (fun _ => rfl) (by simp) (by simp)
      (.cons (hproperties.change rfl hlist) .nil) rfl
  | literal hkind hvalue hv =>
    exact steady_tagged_record literal hkind (fun _ => rfl) (by simp) (by simp)
      (.cons (hvalue.change hv.steady) .nil) rfl
  | @intrinsic name es hkind hname =>
    exact steady_tagged_record intrinsic hkind (fun _ => rfl) (by simp) (by simp)
      (.cons (hname.change (steady_text name)) .nil) rfl
  | unrecognized hkind hunknown =>
    exact steady_tagged hkind fun es' _ => ofKind_of_not_mem hunknown _

theorem Written.steady (h : t.Written j) : Steady ofJson j t := by
  induction hn : j.depth using Nat.strong_induction_on generalizing t j with
  | _ n ih =>
    rw [show ofJson = _ from funext ofJson_eq]
    exact steady_ofKind h fun u i hi hu => ih i.depth (hn ▸ hi) hu rfl

end TypeNode

/-! ### Declarations -/

section Declarations

variable {j : Json}

lemma Model.Written.steady {d : Model} (h : d.Written j) :
    Steady (Model.reader : FromValue Model) j d := by
  cases h with
  | intro hname hproperties hindexer hintrinsic hparameters horigin =>
    have hlist (v : Json) (hw : ListWritten (PropertyOf.Written TypeNode.Written) d.properties v) :
        Steady (FromValue.list Property.reader) v d.properties :=
      hw.steady fun p _ i _ hp => hp.steady fun u _ _ hu => hu.steady
    have hix (v : Json)
        (hw : NullableWritten (IndexerOf.Written TypeNode.Written) d.indexer v) :
        Steady (FromValue.nullable (IndexerOf.reader TypeNode.ofJson)) v d.indexer :=
      hw.steady fun ix hix => hix.steady fun u _ _ hu => hu.steady
    have htexts (v : Json) (hw : ListWritten TextWritten d.templateParameters v) :
        Steady (FromValue.list FromValue.text) v d.templateParameters :=
      hw.steady fun _ _ _ _ hs => hs.steady
    exact steady_record (by simp) (by simp [Independent])
      (.cons (hname.change (steady_text d.name))
        (.cons (hproperties.change rfl fun v _ => hlist v)
          (.cons (hindexer.change rfl fun v _ => hix v)
            (.cons (hintrinsic.change rfl fun _ _ hw => hw.steady)
              (.cons (hparameters.change rfl fun v _ => htexts v)
                (.cons (horigin.change rfl fun _ _ hw => hw.steady) .nil)))))) rfl

lemma Member.Written.steady {e : Member} (h : e.Written j) :
    Steady (Member.reader : FromValue Member) j e := by
  cases h with
  | intro hname hvalue =>
    exact steady_record (by simp) (by simp [Independent])
      (.cons (hname.change (steady_text e.name))
        (.cons (hvalue.change rfl fun _ _ hw => hw.steady fun _ hv => hv.steady) .nil)) rfl

lemma Enumeration.Written.steady {d : Enumeration} (h : d.Written j) :
    Steady (Enumeration.reader : FromValue Enumeration) j d := by
  cases h with
  | intro hname hmembers horigin =>
    have hlist (v : Json) (hw : ListWritten Member.Written d.members v) :
        Steady (FromValue.list Member.reader) v d.members :=
      hw.steady fun _ _ _ _ he => he.steady
    exact steady_record (by simp) (by simp [Independent])
      (.cons (hname.change (steady_text d.name)) (.cons (hmembers.change rfl fun v _ => hlist v)
        (.cons (horigin.change rfl fun _ _ hw => hw.steady) .nil))) rfl

end Declarations

end ZodGraph
