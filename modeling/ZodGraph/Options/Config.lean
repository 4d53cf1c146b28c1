import ZodGraph.Options
import ZodGraph.Yaml.Value

/-!
Options in a YAML config: the section of this program in the map `options`. All else in a config
belongs to others and is passed over.
-/

namespace ZodGraph

open Yaml (Value LinkedNode Links Node Read)

/-- Why a section holds no options. -/
inductive SectionFault where
  | mismatch (got : Value) (want : String)
  | duplicate (field : String)

def SectionFault.message : SectionFault → String
  | mismatch got want => "invalid type: " ++ got.describe ++ ", expected " ++ want
  | duplicate field => "duplicate field `" ++ field ++ "`"

/-- Why a config cannot be read. -/
inductive ConfigFault where
  /-- At a place in the text. -/
  | located
  | severalDocuments
  | notNull (text : String)
  | repetition
  | badSection (fault : SectionFault)

/-- Faults at a place have no message of their own. -/
def ConfigFault.message? : ConfigFault → Option String
  | located => none
  | severalDocuments =>
    some "deserializing from YAML containing more than one document is not supported"
  | notNull text => some ("invalid value: string " ++ Text.quoted text ++ ", expected null")
  | repetition => some "repetition limit exceeded"
  | badSection fault => some fault.message

namespace Options

/-- The section of this program. -/
def sectionName : String := "zodspec"

/-! ### The section -/

/-- An option of a section. -/
structure Setting where
  key : String
  want : String
  set : Option String → Options → Options

def settings : List Setting :=
  [ ⟨"output-dir", "path string", fun v o => { o with outputDir := v }⟩,
    ⟨"output-file", "a string", fun v o => { o with outputFile := v }⟩,
    ⟨"package-name", "a string", fun v o => { o with packageName := v }⟩,
    ⟨"package-version", "a string", fun v o => { o with packageVersion := v }⟩ ]

/-- Null leaves an option unset, but not under a tag. -/
def readSetting (want : String) : Value → Except SectionFault (Option String)
  | .null => .ok none
  | v =>
    match v.untag with
    | .string s => .ok (some s)
    | _ => .error (.mismatch v want)

def readEntries (seen : List String) (o : Options) :
    List (Value × Value) → Except SectionFault Options
  | [] => .ok o
  | (k, v) :: es =>
    match k.untag with
    | .string key =>
      match settings.find? fun s => s.key == key with
      | none => readEntries seen o es
      | some s =>
        if key ∈ seen then .error (.duplicate key)
        else do readEntries (key :: seen) (s.set (← readSetting s.want v) o) es
    | _ => .error (.mismatch k "field identifier")

def ofSection (v : Value) : Except SectionFault Options :=
  match v.untag with
  | .null => .ok {}
  | .map es => readEntries [] {} es
  | _ => .error (.mismatch v "struct EmitterOptions")

/-! ### The config around it -/

/-- How deep a section may nest: two levels of 128 are around it. -/
def sectionDepth : Nat := 126

/-- A key as it is written. -/
def keyText (links : Links) (node : LinkedNode) : Read String := do
  match ← links.follow node with
  | .scalar _ text _ => pure text
  | _ => throw .located

/-- The last section of this program among the entries of the map `options`. -/
def findSection (links : Links) (found : Option Value) :
    List (LinkedNode × LinkedNode) → Read (Option Value)
  | [] => pure found
  | (k, v) :: es => do
    let name ← keyText links k
    let v ← links.value sectionDepth v
    findSection links (if name = sectionName then some v else found) es

/-- The entries of a map; an empty place counts as one. -/
def mapEntries (links : Links) (node : LinkedNode) : Read (List (LinkedNode × LinkedNode)) := do
  match ← links.follow node with
  | .map _ es => pure es
  | .scalar _ "" true => pure []
  | _ => throw .located

/-- The section in the entries of a config; `options` may not come twice. -/
def findOptions (links : Links) (found : Option (Option Value)) :
    List (LinkedNode × LinkedNode) → Read (Option Value)
  | [] => pure (found.getD none)
  | (k, v) :: es => do
    if (← keyText links k) = "options" then
      if found.isSome then throw .located
      let s ← findSection links none (← mapEntries links v)
      findOptions links (some s) es
    else if v.isCut then throw .located
    else findOptions links found es

/-- Whether the config is there at all. -/
def isAbsent : LinkedNode → Except ConfigFault Bool
  | .scalar props text true =>
    if props.tag = some (Yaml.Tag.language "null") then
      if Yaml.isNullWord text then .ok true else .error (.notNull text)
    else .ok (props.tag.isNone && (text.isEmpty || Yaml.isNullWord text))
  | _ => .ok false

def liftFault {α : Type} : Except Yaml.ValueFault α → Except ConfigFault α
  | .ok a => .ok a
  | .error .located => .error .located
  | .error .repetition => .error .repetition

/-- The section of a document. -/
def sectionOf (links : Links) (root : LinkedNode) : Except ConfigFault (Option Value) := do
  if ← isAbsent root then return none
  let read : Read (Option Value) := do findOptions links none (← mapEntries links root)
  liftFault ((·.1) <$> read.run 0)

/-- How often aliases may be followed for each part of a document. -/
def followLimit : Nat := 100

/-- Reads the options in the text of a config. What is wrong in front of the place where a
document breaks off comes first. -/
def ofConfig (text : String) : Except ConfigFault Options :=
  match Yaml.Stream.ofTokens (Yaml.Token.scan text) with
  | .empty => .ok {}
  | .document root ending => do
    let linked := root.link []
    let s ← sectionOf ⟨linked.table, followLimit * linked.result.size⟩ linked.result
    match ending, s with
    | .malformed, _ => throw .located
    | .more, _ => throw .severalDocuments
    | .last, none => return {}
    | .last, some v =>
      match ofSection v with
      | .ok o => return o
      | .error e => throw (.badSection e)

end Options

end ZodGraph
