import ZodGraph.Yaml.Token

/-!
Nodes of a YAML document, read from tokens. Where the tokens are malformed the document breaks
off, and what stands in front of that place is kept. An alias is first a name. Linking replaces
it by the number of an anchor and lists what the anchors stand for.
-/

namespace ZodGraph.Yaml

/-- What is written in front of a node. -/
structure Properties where
  anchor : Option String := none
  tag : Option Tag := none
deriving DecidableEq, Inhabited

inductive Node (α : Type) where
  | alias (target : α)
  | scalar (props : Properties) (text : String) (plain : Bool)
  | list (props : Properties) (items : List (Node α))
  | map (props : Properties) (entries : List (Node α × Node α))
  /-- The document breaks off in front of a node. -/
  | broken

/-- A node with nothing in it. -/
def Node.blank {α : Type} (props : Properties := {}) : Node α := .scalar props "" true

mutual

/-- The document breaks off inside the node. -/
def Node.isCut {α : Type} : Node α → Bool
  | .alias _ => false
  | .scalar _ _ _ => false
  | .list _ items => cutItems items
  | .map _ entries => cutEntries entries
  | .broken => true

def cutItems {α : Type} : List (Node α) → Bool
  | [] => false
  | x :: xs => x.isCut || cutItems xs

def cutEntries {α : Type} : List (Node α × Node α) → Bool
  | [] => false
  | (k, v) :: es => k.isCut || v.isCut || cutEntries es

end

mutual

/-- The parts of a node: one for a scalar or an alias, and the two ends of a collection, of which
the second may be missing. -/
def Node.size {α : Type} : Node α → Nat
  | .alias _ => 1
  | .scalar _ _ _ => 1
  | .list _ items => (if cutItems items then 1 else 2) + sizeItems items
  | .map _ entries => (if cutEntries entries then 1 else 2) + sizeEntries entries
  | .broken => 0

def sizeItems {α : Type} : List (Node α) → Nat
  | [] => 0
  | x :: xs => x.size + sizeItems xs

def sizeEntries {α : Type} : List (Node α × Node α) → Nat
  | [] => 0
  | (k, v) :: es => k.size + v.size + sizeEntries es

end

/-- Handles of tags and what they stand for. -/
abbrev TagTable := List (String × Tag)

/-- Handles that are always known. -/
def commonTags : TagTable := [("!", [Tag.bang]), ("!!", Tag.language "")]

/-- A handle has to be known; without one the suffix is the whole tag. -/
def TagTable.resolve (tags : TagTable) (handle : String) (suffix : Tag) : Option Tag :=
  if handle.isEmpty then some suffix else (tags.lookup handle).map (· ++ suffix)

/-- An anchor and a tag, in either order. -/
def readProperties (tags : TagTable) : List Token → Option (Properties × List Token)
  | .anchor a :: .tag h s :: ts => do return (⟨some a, ← tags.resolve h s⟩, ts)
  | .anchor a :: ts => some (⟨some a, none⟩, ts)
  | .tag h s :: .anchor a :: ts => do return (⟨some a, ← tags.resolve h s⟩, ts)
  | .tag h s :: ts => do return (⟨none, ← tags.resolve h s⟩, ts)
  | ts => some ({}, ts)

/-- Which nodes may stand in a place. -/
inductive Place where
  | flow
  | block
  /-- A block where the entries of a sequence need no indentation. -/
  | member
deriving DecidableEq

/-- Tokens in front of which a node is left out. -/
def Token.endsMember : Token → Bool
  | .key | .value | .blockEnd => true
  | _ => false

def Token.endsEntry : Token → Bool
  | .blockEntry | .blockEnd => true
  | _ => false

def Token.endsPair : Token → Bool
  | .value | .flowEntry | .flowSequenceEnd => true
  | _ => false

def Token.endsFlowKey : Token → Bool
  | .value | .flowEntry | .flowMappingEnd => true
  | _ => false

def Token.endsFlowItem : Token → Bool
  | .flowEntry | .flowSequenceEnd => true
  | _ => false

def Token.endsFlowValue : Token → Bool
  | .flowEntry | .flowMappingEnd => true
  | _ => false

/-- The first token of what is left satisfies the test. -/
def next (p : Token → Bool) : List Token → Bool
  | [] => false
  | t :: _ => p t

abbrev RawNode := Node String

abbrev RawEntry := RawNode × RawNode

/-- The tokens that follow; none where the document breaks off. -/
abbrev Rest := Option (List Token)

/-- A node in front of other items. -/
def thenItems (first : RawNode × Rest) (more : List Token → List RawNode × Rest) :
    List RawNode × Rest :=
  match first with
  | (x, none) => ([x], none)
  | (x, some ts) =>
    let (xs, rest) := more ts
    (x :: xs, rest)

/-- A key and its value. -/
def thenValue (key : RawNode × Rest) (value : List Token → RawNode × Rest) : RawEntry × Rest :=
  match key with
  | (k, none) => ((k, .broken), none)
  | (k, some ts) =>
    let (v, rest) := value ts
    ((k, v), rest)

/-- An entry in front of others. -/
def thenEntries (first : RawEntry × Rest) (more : List Token → List RawEntry × Rest) :
    List RawEntry × Rest :=
  match first with
  | (e, none) => ([e], none)
  | (e, some ts) =>
    let (es, rest) := more ts
    (e :: es, rest)

/-- A node that is left out. -/
def leftOut (ts : List Token) : RawNode × Rest :=
  if next (· == .malformed) ts then (.broken, none) else (.blank, some ts)

/-- A node that has properties only. -/
def bare (props : Properties) (ts : List Token) : RawNode × Rest :=
  if props = {} ∨ next (· == .malformed) ts then (.broken, none) else (.blank props, some ts)

/-- The comma in front of every part of a flow collection but the first. -/
def separator (first : Bool) (ts : List Token) : Rest :=
  match first, ts with
  | true, ts => some ts
  | false, .flowEntry :: ts => some ts
  | false, _ => none

mutual

/-- A node, through at most `n` steps. -/
def readNode (tags : TagTable) : Nat → Place → List Token → RawNode × Rest
  | 0, _, _ => (.broken, none)
  | _ + 1, _, .alias name :: ts => (.alias name, some ts)
  | n + 1, place, ts =>
    match readProperties tags ts with
    | none => (.broken, none)
    | some (props, ts) =>
      match ts with
      | .scalar text plain :: ts => (.scalar props text plain, some ts)
      | .flowSequenceStart :: ts =>
        let (items, rest) := readFlowItems tags n true ts
        (.list props items, rest)
      | .flowMappingStart :: ts =>
        let (entries, rest) := readFlowEntries tags n true ts
        (.map props entries, rest)
      | .blockEntry :: _ =>
        if place = .member then
          let (items, rest) := readLooseItems tags n ts
          (.list props items, rest)
        else bare props ts
      | .blockSequenceStart :: inner =>
        if place = .flow then bare props ts
        else
          let (items, rest) := readBlockItems tags n inner
          (.list props items, rest)
      | .blockMappingStart :: inner =>
        if place = .flow then bare props ts
        else
          let (entries, rest) := readBlockEntries tags n inner
          (.map props entries, rest)
      | _ => bare props ts

/-- A node, unless a token follows in front of which it is left out. -/
def readUnless (tags : TagTable) : Nat → (Token → Bool) → Place → List Token → RawNode × Rest
  | 0, _, _, _ => (.broken, none)
  | n + 1, stop, place, ts => if next stop ts then (.blank, some ts) else readNode tags n place ts

/-- The value of an entry, which may be left out with or without its colon. -/
def readValue (tags : TagTable) : Nat → (Token → Bool) → Place → List Token → RawNode × Rest
  | 0, _, _, _ => (.broken, none)
  | n + 1, stop, place, .value :: ts => readUnless tags n stop place ts
  | _ + 1, _, _, ts => leftOut ts

/-- Entries of a sequence in a block of its own. -/
def readBlockItems (tags : TagTable) : Nat → List Token → List RawNode × Rest
  | 0, _ => ([.broken], none)
  | n + 1, .blockEntry :: ts =>
    thenItems (readUnless tags n Token.endsEntry .block ts) (readBlockItems tags n)
  | _ + 1, .blockEnd :: ts => ([], some ts)
  | _ + 1, _ => ([.broken], none)

/-- Entries of a sequence that has the indentation of its key. -/
def readLooseItems (tags : TagTable) : Nat → List Token → List RawNode × Rest
  | 0, _ => ([.broken], none)
  | n + 1, .blockEntry :: ts =>
    let stop (t : Token) := t.endsMember || t.endsEntry
    thenItems (readUnless tags n stop .block ts) (readLooseItems tags n)
  | _ + 1, .malformed :: _ => ([.broken], none)
  | _ + 1, ts => ([], some ts)

def readBlockEntries (tags : TagTable) : Nat → List Token → List RawEntry × Rest
  | 0, _ => ([(.broken, .broken)], none)
  | n + 1, .key :: ts =>
    let key := readUnless tags n Token.endsMember .member ts
    let entry := thenValue key (readValue tags n Token.endsMember .member)
    thenEntries entry (readBlockEntries tags n)
  | _ + 1, .blockEnd :: ts => ([], some ts)
  | _ + 1, _ => ([(.broken, .broken)], none)

/-- The key of a pair in a flow sequence; one that is left out takes a token with it. -/
def readPairKey (tags : TagTable) : Nat → List Token → RawNode × Rest
  | 0, _ => (.broken, none)
  | n + 1, ts =>
    if next Token.endsPair ts then (.blank, some (ts.drop 1)) else readNode tags n .flow ts

/-- An item of a flow sequence. A lone entry is a map of its own. -/
def readFlowItem (tags : TagTable) : Nat → List Token → RawNode × Rest
  | 0, _ => (.broken, none)
  | n + 1, .key :: ts =>
    let (entry, rest) := thenValue (readPairKey tags n ts)
      (readValue tags n Token.endsFlowItem .flow)
    (.map {} [entry], rest)
  | n + 1, ts => readNode tags n .flow ts

def readFlowItems (tags : TagTable) : Nat → Bool → List Token → List RawNode × Rest
  | 0, _, _ => ([.broken], none)
  | _ + 1, _, .flowSequenceEnd :: ts => ([], some ts)
  | n + 1, first, ts =>
    match separator first ts with
    | none => ([.broken], none)
    | some (.flowSequenceEnd :: ts) => ([], some ts)
    | some ts => thenItems (readFlowItem tags n ts) (readFlowItems tags n false)

/-- An entry of a flow mapping, which may be a lone key. -/
def readFlowEntry (tags : TagTable) : Nat → List Token → RawEntry × Rest
  | 0, _ => ((.broken, .broken), none)
  | n + 1, .key :: ts =>
    thenValue (readUnless tags n Token.endsFlowKey .flow ts)
      (readValue tags n Token.endsFlowValue .flow)
  | n + 1, ts => thenValue (readNode tags n .flow ts) leftOut

def readFlowEntries (tags : TagTable) : Nat → Bool → List Token → List RawEntry × Rest
  | 0, _, _ => ([(.broken, .broken)], none)
  | _ + 1, _, .flowMappingEnd :: ts => ([], some ts)
  | n + 1, first, ts =>
    match separator first ts with
    | none => ([(.broken, .broken)], none)
    | some (.flowMappingEnd :: ts) => ([], some ts)
    | some ts => thenEntries (readFlowEntry tags n ts) (readFlowEntries tags n false)

end

/-- Directives in front of a document: the handles they declare and what follows them. -/
def readDirectives (version : Bool) (tags : TagTable) : List Token → Option (TagTable × List Token)
  | .versionDirective major minor :: ts =>
    if version ∨ major ≠ 1 ∨ (minor ≠ 1 ∧ minor ≠ 2) then none
    else readDirectives true tags ts
  | .tagDirective handle start :: ts =>
    if (tags.lookup handle).isSome then none
    else readDirectives version ((handle, start) :: tags) ts
  | ts => some (tags, ts)

/-- Tokens that leave a document empty. -/
def Token.endsDocument : Token → Bool
  | .versionDirective .. | .tagDirective .. | .documentStart | .documentEnd | .streamEnd => true
  | _ => false

/-- What follows a document. -/
inductive Ending where
  | last
  /-- Something else, be it a document or not. -/
  | more
  /-- The document breaks off, or its end cannot be told. -/
  | malformed
deriving DecidableEq

/-- What a stream holds first. -/
inductive Stream where
  | empty
  | document (root : RawNode) (ending : Ending)

/-- What follows the first document; anything but ends of documents is more. -/
def afterDocument : List Token → Ending
  | .documentEnd :: ts => afterDocument ts
  | ts => if ts = [.streamEnd] then .last else .more

/-- Once the root has been read, the next token has to be one. -/
def Ending.ofRest : Rest → Ending
  | none => .malformed
  | some ts => if next (· == .malformed) ts then .malformed else afterDocument ts

def Stream.ofNode (root : RawNode × Rest) : Stream := .document root.1 (.ofRest root.2)

def Stream.ofTokens (ts : List Token) : Stream :=
  let fuel := 4 * ts.length + 4
  let start := next (fun t => t.endsDocument && t != .documentEnd) ts
  if ts.head? = some .streamEnd then .empty
  else if start then
    match readDirectives false [] ts with
    | some (tags, .documentStart :: ts) =>
      if next Token.endsDocument ts then .ofNode (.blank, some ts)
      else .ofNode (readNode (tags ++ commonTags) fuel .block ts)
    | _ => .ofNode (.broken, none)
  else .ofNode (readNode commonTags fuel .block ts)

/-! ### Links -/

abbrev LinkedNode := Node Nat

abbrev LinkedEntry := LinkedNode × LinkedNode

/-- Numbers of the anchors met so far, the last first. -/
abbrev Anchors := List (String × Nat)

/-- An anchor takes the number of names in use, so that a name used twice shares the number of
the name that comes next. -/
def Anchors.declare (anchors : Anchors) (props : Properties) : Option Nat × Anchors :=
  match props.anchor with
  | none => (none, anchors)
  | some name =>
    let n := anchors.length
    (some n, (name, n) :: anchors.filter fun a => a.1 ≠ name)

/-- A linked node, the anchors after it unless the document breaks off there, and the anchored
nodes within it, outer ones first. -/
structure Linked (α : Type) where
  result : α
  anchors : Option Anchors
  table : List (Nat × LinkedNode)

namespace Linked

def enter (id : Option Nat) (l : Linked LinkedNode) : Linked LinkedNode :=
  match id with
  | none => l
  | some n => { l with table := (n, l.result) :: l.table }

def map {α β : Type} (f : α → β) (l : Linked α) : Linked β := ⟨f l.result, l.anchors, l.table⟩

/-- Goes on behind a linked node, unless the document breaks off in it. -/
def andThen {α β γ : Type} (a : Linked α) (rest : β) (next : Anchors → Linked β)
    (join : α → β → γ) : Linked γ :=
  match a.anchors with
  | none => ⟨join a.result rest, none, a.table⟩
  | some anchors =>
    let b := next anchors
    ⟨join a.result b.result, b.anchors, a.table ++ b.table⟩

end Linked

mutual

/-- Links the aliases of a node. Each has to name an anchor in front of it, or the document
breaks off there. -/
def Node.link (anchors : Anchors) : RawNode → Linked LinkedNode
  | .alias name =>
    match anchors.lookup name with
    | some n => ⟨.alias n, some anchors, []⟩
    | none => ⟨.broken, none, []⟩
  | .scalar props text plain =>
    let (id, anchors) := anchors.declare props
    .enter id ⟨.scalar props text plain, some anchors, []⟩
  | .list props items =>
    let (id, anchors) := anchors.declare props
    .enter id ((linkItems anchors items).map (.list props))
  | .map props entries =>
    let (id, anchors) := anchors.declare props
    .enter id ((linkEntries anchors entries).map (.map props))
  | .broken => ⟨.broken, none, []⟩

def linkItems (anchors : Anchors) : List RawNode → Linked (List LinkedNode)
  | [] => ⟨[], some anchors, []⟩
  | x :: xs => (x.link anchors).andThen [] (fun anchors => linkItems anchors xs) List.cons

def linkEntries (anchors : Anchors) : List RawEntry → Linked (List LinkedEntry)
  | [] => ⟨[], some anchors, []⟩
  | (k, v) :: es =>
    let entry := (k.link anchors).andThen .broken (fun anchors => v.link anchors) Prod.mk
    entry.andThen [] (fun anchors => linkEntries anchors es) List.cons

end

end ZodGraph.Yaml
