import ZodGraph.Proofs.Graph.Written

/-!
Graphs are recovered from their JSON form. What is kept as malformed must not read as a namespace,
and it is looked at as it stands in the text, where keys come in any order and may be repeated;
since what reads as a namespace still does so once it is collapsed, it is malformed there too.
-/

namespace ZodGraph

open Json Json.Source

/-! ### Readers that last -/

section Lasting

variable {node : FromValue TypeNode}

@[simp] lemma TypeNode.lasts_slot : Lasts (slot node : FromValue TypeNode) :=
  lasts_of_total fun _ => ⟨_, rfl⟩

@[simp] lemma KeyKind.lasts_reader : Lasts (KeyKind.reader : FromValue KeyKind) :=
  lasts_text.refine fun _ => ⟨_, rfl⟩

@[simp] lemma Origin.lasts_reader : Lasts (Origin.reader : FromValue Origin) := lasts_choice

@[simp] lemma MemberValue.lasts_ofJson :
    Lasts (refine any MemberValue.ofJson : FromValue MemberValue) := by
  refine lasts_of_flat fun j v hv => ?_
  cases j with
  | arr => cases hv
  | obj => cases hv
  | _ => rfl

lemma PropertyOf.lasts_reader : Lasts (PropertyOf.reader node : FromValue Property) :=
  Lasts.record (by simp) (by simp)

lemma IndexerOf.lasts_reader : Lasts (IndexerOf.reader node : FromValue Indexer) :=
  Lasts.record (by simp [fields]) (by simp [fields])

@[simp] lemma Model.lasts_reader : Lasts (Model.reader : FromValue Model) := by
  have hproperty : Lasts (Property.reader : FromValue Property) := PropertyOf.lasts_reader
  have hindexer : Lasts (IndexerOf.reader TypeNode.ofJson : FromValue Indexer) :=
    IndexerOf.lasts_reader
  exact Lasts.record (by simp) (by simp [hproperty, hindexer])

@[simp] lemma Member.lasts_reader : Lasts (Member.reader : FromValue Member) :=
  Lasts.record (by simp) (by simp)

@[simp] lemma Enumeration.lasts_reader : Lasts (Enumeration.reader : FromValue Enumeration) :=
  Lasts.record (by simp) (by simp)

theorem Namespace.lasts_ofJson : Lasts Namespace.ofJson := by
  have hentry : Lasts (refine any fun j => .ok (entryOf Namespace.ofJson j) : FromValue Entry) :=
    lasts_of_total fun _ => ⟨_, rfl⟩
  rw [show Namespace.ofJson = _ from funext Namespace.ofJson_eq]
  exact Lasts.record (by simp) (by simp [hentry])

end Lasting

/-! ### Namespaces -/

namespace Namespace

lemma entryOf_of_malformed {j : Json} (h : ∀ c, ofJson j ≠ .ok c) :
    entryOf ofJson j = .malformed j.collapse := by
  rcases hj : ofJson j with e | c
  · simp [entryOf, hj]
  · exact absurd hj (h c)

lemma steady_child {j : Json} {c : Namespace} (h : Steady ofJson j c) :
    Steady (refine any fun i => .ok (entryOf ofJson i) : FromValue Entry) j (.child c) :=
  ⟨congrArg Except.ok (entryOf_eq_child.2 h.reads),
    congrArg Except.ok (entryOf_eq_child.2 h.collapsed)⟩

lemma steady_malformed {j : Json} (h : ∀ c, ofJson j.collapse ≠ .ok c) :
    Steady (refine any fun i => .ok (entryOf ofJson i) : FromValue Entry) j
      (.malformed j.collapse) := by
  -- as it stands in a text, the value may have keys out of order or twice
  have hraw : ∀ c, ofJson j ≠ .ok c := fun c hc => by
    obtain ⟨c', hc'⟩ := lasts_ofJson j c hc
    exact h c' hc'
  have hcollapsed := entryOf_of_malformed h
  rw [collapse_collapse] at hcollapsed
  exact ⟨congrArg Except.ok (entryOf_of_malformed hraw), congrArg Except.ok hcollapsed⟩

theorem Written.steady {g : Namespace} {j : Json} (h : g.Written j) (hg : g.Truthful) :
    Steady ofJson j g := by
  induction hn : j.depth using Nat.strong_induction_on generalizing g j with
  | _ n ih =>
    cases h with
    | @intro name entries models enums es hname hentries hmodels henums =>
      -- only the entries need the induction: models and enums hold no namespaces
      obtain ⟨hchild, hmalformed⟩ := hg
      have hitems (v : Json) (hv : v.depth < Json.depth (.obj es))
          (hw : ListWritten (EntryOf.Written Written) entries v) :
          Steady (FromValue.list (refine any fun i => .ok (entryOf ofJson i))) v entries := by
        refine hw.steady fun e he i hi hi' => ?_
        cases hi' with
        | child hc => exact steady_child (ih i.depth (hn ▸ hi.trans hv) hc (hchild _ he) rfl)
        | malformed hcollapse =>
          subst hcollapse
          exact steady_malformed (hmalformed _ he)
      have hdecls (v : Json) (hw : ListWritten Model.Written models v) :
          Steady (FromValue.list Model.reader) v models := hw.steady fun _ _ _ _ hd => hd.steady
      have henumerations (v : Json) (hw : ListWritten Enumeration.Written enums v) :
          Steady (FromValue.list Enumeration.reader) v enums :=
        hw.steady fun _ _ _ _ hd => hd.steady
      rw [show ofJson = _ from funext ofJson_eq]
      exact steady_record (by simp) (by simp [Independent])
        (.cons (hname.change (steady_text name)) (.cons (hentries.change rfl hitems)
          (.cons (hmodels.change rfl fun v _ => hdecls v)
            (.cons (henums.change rfl fun v _ => henumerations v) .nil)))) rfl

end Namespace

/-! ### Reading from text -/

section Following

variable {node : FromValue TypeNode}

lemma TypeNode.follows_slot : Follows (slot node) (slot node) := follows_any.refine _

lemma KeyKind.follows_reader : Follows KeyKind.reader KeyKind.reader := follows_text.refine _

lemma PropertyOf.follows_reader : Follows (PropertyOf.reader node) (PropertyOf.reader node) :=
  FieldFollows.record (.cons (follows_text.required _ _)
    (.cons (TypeNode.follows_slot.defaulted _ _) (.cons (follows_flag.defaulted _ _) .nil))) _ _

lemma IndexerOf.follows_reader : Follows (IndexerOf.reader node) (IndexerOf.reader node) :=
  FieldFollows.record (.cons (KeyKind.follows_reader.required _ _)
    (.cons (TypeNode.follows_slot.required _ _) .nil)) _ _

lemma Model.follows_reader : Follows Model.reader Model.reader :=
  FieldFollows.record (.cons (follows_text.required _ _)
    (.cons (PropertyOf.follows_reader.list.defaulted _ _)
      (.cons (IndexerOf.follows_reader.nullable.defaulted _ _)
        (.cons (follows_flag.defaulted _ _) (.cons (follows_text.list.defaulted _ _)
          (.cons (follows_choice.defaulted _ _) .nil)))))) _ _

lemma Member.follows_reader : Follows Member.reader Member.reader :=
  FieldFollows.record (.cons (follows_text.required _ _)
    (.cons ((follows_any.refine _).nullable.defaulted _ _) .nil)) _ _

lemma Enumeration.follows_reader : Follows Enumeration.reader Enumeration.reader :=
  FieldFollows.record (.cons (follows_text.required _ _)
    (.cons (Member.follows_reader.list.defaulted _ _)
      (.cons (follows_choice.defaulted _ _) .nil))) _ _

lemma Namespace.follows_reader : Follows Namespace.reader Namespace.ofJson := by
  rw [show Namespace.ofJson = _ from funext Namespace.ofJson_eq]
  exact FieldFollows.record (.cons (follows_text.required _ _)
    (.cons ((follows_any.refine _).list.defaulted _ _)
      (.cons (Model.follows_reader.list.defaulted _ _)
        (.cons (Enumeration.follows_reader.list.defaulted _ _) .nil)))) _ _

end Following

namespace Namespace

/-- **Graphs are recovered from their JSON form**: a text that stands for a value in which the
graph is written is read as that graph, if it keeps the limit on open brackets and nothing that the
graph holds as malformed reads as a namespace. -/
theorem parse_written {g : Namespace} {j : Json} {text : String} (hg : g.Truthful)
    (hj : g.Written j) (htext : Spells text j) (hdepth : j.depth ≤ FromText.depthLimit) :
    parse text = .ok g :=
  follows_reader.run htext hdepth (hj.steady hg).reads

/-- A document with its keys out of order, an unknown key, a kind of key and a kind of node that
are unknown, and a child that is no namespace. -/
def itemsText : String :=
  "\x7b\"models\": [\x7b\"name\": \"Item\", \"indexer\": \x7b\"key\": \"uuid\", " ++
    "\"value\": \x7b\"of\": 3, \"kind\": \"tuple\"\x7d\x7d\x7d], \"name\": \"\", " ++
    "\"namespaces\": [\x7b\"b\": 2, \"a\": 1\x7d, \x7b\"name\": \"Shop\"\x7d]\x7d"

def itemJson : Json :=
  .obj [("name", .str "Item"), ("indexer", .obj [("key", .str "uuid"),
    ("value", .obj [("of", .int 3), ("kind", .str "tuple")])])]

def itemsJson : Json :=
  .obj [("models", .arr [itemJson]), ("name", .str ""),
    ("namespaces", .arr [.obj [("b", .int 2), ("a", .int 1)], .obj [("name", .str "Shop")]])]

def items : Namespace :=
  let leftOver : Json := .obj [("a", .int 1), ("b", .int 2)]
  { name := "", entries := [.malformed leftOver, .child { name := "Shop" }],
    models := [{ name := "Item", indexer := some ⟨.other, .unrecognized⟩ }] }

lemma truthful_items : items.Truthful := by
  have hleft : ofJson (.obj [("a", .int 1), ("b", .int 2)]) = .error (.missing "name") := by cbv
  refine ⟨fun c hc => ?_, fun v hv c => ?_⟩
  · obtain rfl : c = { name := "Shop" } := by simpa [items] using hc
    exact ⟨by simp, by simp⟩
  · obtain rfl : v = .obj [("a", .int 1), ("b", .int 2)] := by simpa [items] using hv
    simp [hleft]

lemma items_written : items.Written itemsJson := by
  have hindexer : IndexerOf.Written TypeNode.Written ⟨.other, .unrecognized⟩
      (.obj [("key", .str "uuid"), ("value", .obj [("of", .int 3), ("kind", .str "tuple")])]) :=
    .intro rfl (.other (by decide) (by decide)) rfl (.unrecognized rfl (by decide))
  have hitem : Model.Written { name := "Item", indexer := some ⟨.other, .unrecognized⟩ } itemJson :=
    .intro rfl (.omitted (by decide)) (.given rfl (.some hindexer)) (.omitted (by decide))
      (.omitted (by decide)) (.omitted (by decide))
  have hshop : Written { name := "Shop" } (.obj [("name", .str "Shop")]) :=
    .intro rfl (.omitted (by decide)) (.omitted (by decide)) (.omitted (by decide))
  exact .intro rfl (.given rfl (.cons (.malformed rfl) (.cons (.child hshop) .nil)))
    (.given rfl (.cons hitem .nil)) (.omitted (by decide))

theorem parse_written_items :
    items.Truthful ∧ items.Written itemsJson ∧ Spells itemsText itemsJson ∧
      itemsJson.depth ≤ FromText.depthLimit ∧ parse itemsText = .ok items := by
  have hvalue : value FromText.depthLimit itemsText.toList = .ok (itemsJson, []) := by cbv
  obtain ⟨htext, hdepth⟩ := value_eq_ok_iff.1 hvalue
  have hspells : Spells itemsText itemsJson := ⟨_, [], by simp, htext, blanks_nil⟩
  exact ⟨truthful_items, items_written, hspells, hdepth,
    parse_written truthful_items items_written hspells hdepth⟩

end Namespace

end ZodGraph
