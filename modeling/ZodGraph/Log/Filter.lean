import ZodGraph.Log
import ZodGraph.Log.Directive

/-!
Which events are logged. Of the directives that an event meets, the one that asks for most
decides.
-/

namespace ZodGraph.Log

/-- The targets that a plain level is for. -/
def ownTargets : List String := ["zodspec_cli", "zodspec_core", "zodspec_common"]

def isPlainLevel (s : String) : Bool :=
  ["trace", "debug", "info", "warn", "error"].contains (lower s)

structure Filter where
  directives : List Directive
deriving DecidableEq

/-- The directives of a setting, in order. -/
def specParts (spec : String) : List String := (Text.split ',' spec).filter (!·.isEmpty)

/-- Directives that cannot be read are left out; without any, only errors are logged. -/
def Filter.ofSpec (spec : String) : Filter :=
  let ds := (specParts spec).filterMap fun s => (Directive.parse s).toOption
  ⟨if ds.isEmpty then [{ limit := 1 }] else ds⟩

/-- The same level for all targets of the program. -/
def Filter.ofLevel (n : Nat) : Filter :=
  ⟨ownTargets.map fun t => { target := some t, limit := n }⟩

/-- The filter for the setting in the environment, if there is one. -/
def Filter.ofSetting : Option String → Filter
  | none => .ofLevel Level.info.verbosity
  | some s => if isPlainLevel s then .ofLevel ((limit? s).getD 0) else .ofSpec s

/-- A line for each part of the setting that is left out. -/
def complaints : Option String → List String
  | none => []
  | some s =>
    if isPlainLevel s then []
    else (specParts s).filterMap fun part =>
      match Directive.parse part with
      | .ok _ => none
      | .error e => some ("ignoring `" ++ part ++ "`: " ++ e.message)

/-- Spans and values of fields are never known for an event. -/
def Directive.isKnown (d : Directive) : Bool :=
  d.span.isNone && !d.field.any (·.hasValue)

/-- The names of what an event holds, its message included. -/
def Event.fieldNames (e : Event) : List String := "message" :: e.fields.map (·.name)

def Directive.covers (d : Directive) (e : Event) : Bool :=
  d.isKnown
    && d.target.all (fun t => t.toList.isPrefixOf e.target.toList)
    && d.field.all (fun f => e.fieldNames.contains f.name)

/-- How much a directive asks for: a long target first, then a field. -/
def Directive.weight (d : Directive) : Nat × Nat × String :=
  (d.target.elim 0 fun t => t.utf8ByteSize + 1, if d.field.isSome then 1 else 0,
    d.field.elim "" (·.name))

/-- The directive asks for no more than the other. -/
def Directive.atMost (a b : Directive) : Bool :=
  let (t, f, name) := a.weight
  let (t', f', name') := b.weight
  t < t' || (t == t' && (f < f' || (f == f' && (name < name' || name == name'))))

/-- Of two directives the one that asks for more, and of equals the later one. -/
def Filter.deciding (f : Filter) (e : Event) : Option Directive :=
  f.directives.foldl (fun best d =>
    if d.covers e && best.all (·.atMost d) then some d else best) none

def Filter.admits (f : Filter) (e : Event) : Bool :=
  match f.deciding e with
  | none => false
  | some d => e.level.verbosity ≤ d.limit

end ZodGraph.Log
