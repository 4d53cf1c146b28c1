import ZodGraph.Graph.Reader
import ZodGraph.Proofs.Json.Edit

/-!
Places in a type graph where a node stands, and where a child of a namespace stands: how to look
one up, how to put another thing there, and where it is written in a document. What was put in a
place is found there, and putting back what was there before undoes it.
-/

namespace ZodGraph

open Json (Part)

section Lists

variable {α : Type} {f g : α → α} {l : List α} {i : Nat} {a : α}

lemma getElem?_modify_of_some (h : l[i]? = some a) : (l.modify i f)[i]? = some (f a) := by
  rw [List.getElem?_modify_eq, h]
  rfl

lemma modify_cancel (h : l[i]? = some a) (hfg : g (f a) = a) : (l.modify i f).modify i g = l := by
  rw [List.modify_modify_eq]
  refine List.ext_getElem? fun j => ?_
  rw [List.getElem?_modify]
  by_cases hj : i = j
  · subst hj
    simp [h, hfg]
  · simp [hj]

end Lists

/-! ### Nodes -/

/-- A slot of a node or of a model. -/
inductive Slot where
  | property (index : Nat)
  | indexer
  | variant (index : Nat)
  | element
  | value

/-- Where the value of a slot is written. -/
def Slot.path : Slot → List Part
  | property i => [.field "properties" 1, .item i, .field "type" 1]
  | indexer => [.field "indexer" 2, .field "value" 1]
  | variant i => [.field "variants" 1, .item i]
  | element => [.field "element" 1]
  | value => [.field "value" 2]

namespace TypeNode

def child? : TypeNode → Slot → Option TypeNode
  | object ps, .property i => ps[i]?.map (·.type)
  | model _ indexer, .indexer => indexer.map (·.value)
  | union ts, .variant i => ts[i]?
  | array t, .element => some t
  | map _ t, .value => some t
  | _, _ => none

def mapChild (f : TypeNode → TypeNode) : TypeNode → Slot → TypeNode
  | object ps, .property i => object (ps.modify i fun p => { p with type := f p.type })
  | model name indexer, .indexer =>
    model name (indexer.map fun ix => { ix with value := f ix.value })
  | union ts, .variant i => union (ts.modify i f)
  | array t, .element => array (f t)
  | map key t, .value => map key (f t)
  | t, _ => t

/-- The node some slots down. -/
def at? (t : TypeNode) : List Slot → Option TypeNode
  | [] => some t
  | s :: slots => (t.child? s).bind (·.at? slots)

/-- The node with another some slots down. -/
def putAt (t new : TypeNode) : List Slot → TypeNode
  | [] => new
  | s :: slots => t.mapChild (·.putAt new slots) s

/-- The node that a value in a slot denotes. -/
def denoted (j : Json) : TypeNode := (ofJson j.collapse).toOption.getD .unrecognized

section

variable {t u n new : TypeNode} {s : Slot} {slots : List Slot} {f g : TypeNode → TypeNode}

lemma child?_mapChild (h : t.child? s = some u) : (t.mapChild f s).child? s = some (f u) := by
  cases t, s using child?.fun_cases with
  | case1 ps i =>
    obtain ⟨p, hp, rfl⟩ := Option.map_eq_some_iff.1 h
    simp [mapChild, child?, getElem?_modify_of_some hp]
  | case2 name indexer =>
    obtain ⟨ix, rfl, rfl⟩ := Option.map_eq_some_iff.1 h
    rfl
  | case3 ts i => exact getElem?_modify_of_some h
  | case4 t =>
    obtain rfl := Option.some.inj h
    rfl
  | case5 key t =>
    obtain rfl := Option.some.inj h
    rfl
  | case6 => simp_all [child?]

lemma mapChild_cancel (h : t.child? s = some u) (hfg : g (f u) = u) :
    (t.mapChild f s).mapChild g s = t := by
  cases t, s using child?.fun_cases with
  | case1 ps i =>
    obtain ⟨p, hp, rfl⟩ := Option.map_eq_some_iff.1 h
    exact congrArg object (modify_cancel hp (by simp [hfg]))
  | case2 name indexer =>
    obtain ⟨ix, rfl, rfl⟩ := Option.map_eq_some_iff.1 h
    simp [mapChild, hfg]
  | case3 ts i => exact congrArg union (modify_cancel h hfg)
  | case4 t =>
    obtain rfl := Option.some.inj h
    exact congrArg array hfg
  | case5 key t =>
    obtain rfl := Option.some.inj h
    exact congrArg (map key) hfg
  | case6 => simp_all [child?]

lemma at?_putAt (h : t.at? slots = some n) : (t.putAt new slots).at? slots = some new := by
  induction slots generalizing t with
  | nil => rfl
  | cons s slots ih =>
    obtain ⟨u, hu, hn⟩ := Option.bind_eq_some_iff.1 h
    rw [putAt, at?, child?_mapChild hu]
    exact ih hn

lemma putAt_cancel (h : t.at? slots = some n) : (t.putAt new slots).putAt n slots = t := by
  induction slots generalizing t with
  | nil => exact (Option.some.inj h).symm
  | cons s slots ih =>
    obtain ⟨u, hu, hn⟩ := Option.bind_eq_some_iff.1 h
    exact mapChild_cancel hu (ih hn)

lemma at?_unrecognized (h : unrecognized.at? slots = some n) : n = unrecognized := by
  rcases slots with _ | ⟨s, slots⟩
  · exact (Option.some.inj h).symm
  · cases s <;> simp [at?, child?] at h

end

end TypeNode

namespace Model

def child? (m : Model) : Slot → Option TypeNode
  | .property i => m.properties[i]?.map (·.type)
  | .indexer => m.indexer.map (·.value)
  | _ => none

def mapChild (f : TypeNode → TypeNode) (m : Model) : Slot → Model
  | .property i =>
    { m with properties := m.properties.modify i fun p => { p with type := f p.type } }
  | .indexer => { m with indexer := m.indexer.map fun ix => { ix with value := f ix.value } }
  | _ => m

section

variable {m : Model} {s : Slot} {u : TypeNode} {f g : TypeNode → TypeNode}

lemma child?_mapChild (h : m.child? s = some u) : (m.mapChild f s).child? s = some (f u) := by
  cases s with
  | property i =>
    obtain ⟨p, hp, rfl⟩ := Option.map_eq_some_iff.1 h
    simp [mapChild, child?, getElem?_modify_of_some hp]
  | indexer =>
    obtain ⟨ix, hix, rfl⟩ := Option.map_eq_some_iff.1 h
    simp [mapChild, child?, hix]
  | _ => simp [child?] at h

lemma mapChild_cancel (h : m.child? s = some u) (hfg : g (f u) = u) :
    (m.mapChild f s).mapChild g s = m := by
  cases s with
  | property i =>
    obtain ⟨p, hp, rfl⟩ := Option.map_eq_some_iff.1 h
    simp [mapChild, modify_cancel hp, hfg]
  | indexer =>
    obtain ⟨ix, hix, rfl⟩ := Option.map_eq_some_iff.1 h
    obtain ⟨_, _, _⟩ := m
    simp_all [mapChild]
  | _ => simp [child?] at h

end

end Model

/-! ### Namespaces -/

namespace EntryOf

variable {α : Type}

def child? : EntryOf α → Option α
  | child tree => some tree
  | malformed _ => none

/-- Changes a child that is well formed. -/
def mapChild (f : α → α) : EntryOf α → EntryOf α
  | child tree => child (f tree)
  | malformed value => malformed value

variable {e : EntryOf α} {a : α} {f g : α → α}

lemma child?_eq_some : e.child? = some a ↔ e = child a := by
  cases e <;> simp [child?]

lemma child?_mapChild (h : e.child? = some a) : (e.mapChild f).child? = some (f a) := by
  obtain rfl := child?_eq_some.1 h
  rfl

lemma mapChild_cancel (h : e.child? = some a) (hfg : g (f a) = a) :
    (e.mapChild f).mapChild g = e := by
  obtain rfl := child?_eq_some.1 h
  exact congrArg child hfg

end EntryOf

namespace Namespace

/-- The namespace some children down. -/
def space? (ns : Namespace) : List Nat → Option Namespace
  | [] => some ns
  | i :: way => ns.entries[i]?.bind fun e => e.child?.bind fun c => c.space? way

def mapSpace (f : Namespace → Namespace) (ns : Namespace) : List Nat → Namespace
  | [] => f ns
  | i :: way => { ns with entries := ns.entries.modify i (EntryOf.mapChild (mapSpace f · way)) }

section

variable {ns s : Namespace} {way : List Nat} {f g : Namespace → Namespace}

lemma space?_mapSpace (h : ns.space? way = some s) :
    (ns.mapSpace f way).space? way = some (f s) := by
  induction way generalizing ns with
  | nil => exact congrArg (some ∘ f) (Option.some.inj h)
  | cons i way ih =>
    obtain ⟨e, he, h⟩ := Option.bind_eq_some_iff.1 h
    obtain ⟨c, hc, h⟩ := Option.bind_eq_some_iff.1 h
    rw [mapSpace, space?, getElem?_modify_of_some he, Option.bind_some, EntryOf.child?_mapChild hc]
    exact ih h

lemma mapSpace_cancel (h : ns.space? way = some s) (hfg : g (f s) = s) :
    (ns.mapSpace f way).mapSpace g way = ns := by
  induction way generalizing ns with
  | nil =>
    obtain rfl := Option.some.inj h
    exact hfg
  | cons i way ih =>
    obtain ⟨e, he, h⟩ := Option.bind_eq_some_iff.1 h
    obtain ⟨c, hc, h⟩ := Option.bind_eq_some_iff.1 h
    have hentries : (ns.entries.modify i (EntryOf.mapChild (mapSpace f · way))).modify i
        (EntryOf.mapChild (mapSpace g · way)) = ns.entries :=
      modify_cancel he (EntryOf.mapChild_cancel hc (ih h))
    simp only [mapSpace, hentries]
    cases ns
    rfl

end

end Namespace

/-- Where a namespace some children down is written. -/
def spacePath (way : List Nat) : List Part :=
  way.flatMap fun i => [.field "namespaces" 1, .item i]

/-- A place where a node stands: a slot of a model, or one below it. -/
structure Place where
  way : List Nat
  model : Nat
  slot : Slot
  below : List Slot := []

/-- Where the value at a place is written. -/
def Place.path (p : Place) : List Part :=
  spacePath p.way ++
    .field "models" 2 :: .item p.model :: (p.slot.path ++ p.below.flatMap Slot.path)

/-- Where a child of a namespace some children down is written. -/
def entryPath (way : List Nat) (i : Nat) : List Part :=
  spacePath way ++ [.field "namespaces" 1, .item i]

namespace Namespace

/-- The node at a place. -/
def node? (ns : Namespace) (p : Place) : Option TypeNode := do
  let s ← ns.space? p.way
  let m ← s.models[p.model]?
  let t ← m.child? p.slot
  t.at? p.below

/-- The namespace with another node at a place. -/
def putNode (new : TypeNode) (ns : Namespace) (p : Place) : Namespace :=
  ns.mapSpace (fun s => { s with
    models := s.models.modify p.model (·.mapChild (·.putAt new p.below) p.slot) }) p.way

/-- One of the children of a namespace some children down. -/
def entryAt? (ns : Namespace) (way : List Nat) (i : Nat) : Option Entry := do
  let s ← ns.space? way
  s.entries[i]?

/-- The namespace with another child of a namespace some children down. -/
def putEntry (new : Entry) (ns : Namespace) (way : List Nat) (i : Nat) : Namespace :=
  ns.mapSpace (fun s => { s with entries := s.entries.set i new }) way

section

variable {ns : Namespace} {p : Place} {way : List Nat} {i : Nat}

lemma node?_eq_some {t : TypeNode} : ns.node? p = some t ↔
    ∃ s, ns.space? p.way = some s ∧ ∃ m, s.models[p.model]? = some m ∧
      ∃ u, m.child? p.slot = some u ∧ u.at? p.below = some t := by
  simp only [node?, Option.bind_eq_bind, Option.bind_eq_some_iff]

lemma entryAt?_eq_some {e : Entry} : ns.entryAt? way i = some e ↔
    ∃ s, ns.space? way = some s ∧ s.entries[i]? = some e := by
  simp only [entryAt?, Option.bind_eq_bind, Option.bind_eq_some_iff]

lemma node?_putNode {t : TypeNode} (h : ns.node? p = some t) (new : TypeNode) :
    (ns.putNode new p).node? p = some new := by
  obtain ⟨s, hs, m, hm, u, hu, ht⟩ := node?_eq_some.1 h
  exact node?_eq_some.2 ⟨_, space?_mapSpace hs, _, getElem?_modify_of_some hm, _,
    Model.child?_mapChild hu, TypeNode.at?_putAt ht⟩

lemma putNode_cancel {t : TypeNode} (h : ns.node? p = some t) (new : TypeNode) :
    (ns.putNode new p).putNode t p = ns := by
  obtain ⟨s, hs, m, hm, u, hu, ht⟩ := node?_eq_some.1 h
  have hmodels : (s.models.modify p.model (·.mapChild (·.putAt new p.below) p.slot)).modify p.model
      (·.mapChild (·.putAt t p.below) p.slot) = s.models :=
    modify_cancel hm (Model.mapChild_cancel hu (TypeNode.putAt_cancel ht))
  refine mapSpace_cancel hs ?_
  simp only [hmodels]
  cases s
  rfl

lemma entryAt?_putEntry {e : Entry} (h : ns.entryAt? way i = some e) (new : Entry) :
    (ns.putEntry new way i).entryAt? way i = some new := by
  obtain ⟨s, hs, he⟩ := entryAt?_eq_some.1 h
  refine entryAt?_eq_some.2 ⟨_, space?_mapSpace hs, ?_⟩
  exact List.getElem?_set_self (List.getElem?_eq_some_iff.1 he).1

lemma putEntry_cancel {e : Entry} (h : ns.entryAt? way i = some e) (new : Entry) :
    (ns.putEntry new way i).putEntry e way i = ns := by
  obtain ⟨s, hs, he⟩ := entryAt?_eq_some.1 h
  have hentries : (s.entries.set i new).set i e = s.entries := by
    rw [List.set_eq_modify, List.set_eq_modify]
    exact modify_cancel he rfl
  refine mapSpace_cancel hs ?_
  simp only [hentries]
  cases s
  rfl

end

end Namespace

end ZodGraph
