import ZodGraph.Emission
import ZodGraph.Json.Printer
import ZodGraph.Log

/-!
The events of an emission: what the selection left out, what the models depend on and in which
order they came, and what was written.
-/

namespace ZodGraph

open Log (Event Level Field)

namespace Log

def collectorTarget : String := "zodspec_core::collector"

def dependencyTarget : String := "zodspec_core::ir::deps"

def assemblyTarget : String := "zodspec_core::ir::codegen"

def emissionTarget : String := "zodspec_core::emitter"

def fileTarget : String := "zodspec_core::sink"

end Log

/-- Only what is left out is logged. -/
def Ruling.event? : Ruling → Option Event
  | framework path =>
    some ⟨.debug, Log.collectorTarget, "Skipping framework namespace", [⟨"namespace", path, false⟩]⟩
  | malformed path v =>
    some ⟨.warn, Log.collectorTarget, "Skipping malformed namespace entry",
      [⟨"namespace", path, false⟩, ⟨"entry", v.compact, false⟩]⟩
  | excludedModel path m why =>
    some ⟨.debug, Log.collectorTarget, "Skipping model",
      [⟨"namespace", path, false⟩, ⟨"model", m.name, false⟩, ⟨"reason", why.reason, true⟩]⟩
  | libraryEnum path e =>
    some ⟨.debug, Log.collectorTarget, "Skipping library enum",
      [⟨"namespace", path, false⟩, ⟨"name", e.name, false⟩]⟩
  | duplicate path name =>
    some ⟨.warn, Log.collectorTarget, "Duplicate declaration name, keeping the first one",
      [⟨"namespace", path, false⟩, ⟨"name", name, false⟩]⟩
  | keptModel _ => none
  | keptEnum _ => none

def Selection.event (s : Selection) : Event :=
  ⟨.debug, Log.collectorTarget, "Collected declarations",
    [⟨"models", toString s.models.length, false⟩, ⟨"enums", toString s.enums.length, false⟩]⟩

def Namespace.selectionEvents (root : Namespace) : List Event :=
  root.rulings.filterMap Ruling.event? ++ [root.selection.event]

/-- A set of names in braces. -/
def nameSet (names : List String) : String :=
  "\x7b" ++ ", ".intercalate (names.map Text.quoted) ++ "\x7d"

def DependencyNode.event (n : DependencyNode) : Event :=
  ⟨.debug, Log.dependencyTarget, "Analyzed dependencies",
    [⟨"model", n.name, false⟩, ⟨"deps", nameSet n.deps, false⟩]⟩

def droppedEvent (edge : String × String) : Event :=
  ⟨.debug, Log.dependencyTarget, "Dropping cyclic dependency edge",
    [⟨"from", edge.1, false⟩, ⟨"to", edge.2, false⟩]⟩

def Model.definedEvent (m : Model) : Event :=
  ⟨.debug, Log.assemblyTarget, "Generated model schema", [⟨"model", m.name, false⟩]⟩

def Selection.assemblyEvents (s : Selection) : List Event :=
  s.analyses.map DependencyNode.event
    ++ s.dependencyGraph.droppedEdges.map droppedEvent
    ++ s.dependencyGraph.order.map Model.definedEvent

/-- The events of making the module of a graph. -/
def Namespace.documentEvents (root : Namespace) : List Event :=
  root.selectionEvents ++
    if root.selection.isEmpty then [] else root.selection.assemblyEvents

/-- The events of making all files of a graph. -/
def Namespace.fileEvents (root : Namespace) (options : Options) : List Event :=
  root.documentEvents ++
    if root.selection.isEmpty ∨ options.package?.isSome then []
    else [⟨.debug, Log.emissionTarget,
      "Package name or version missing, skipping package files.", []⟩]

/-- A file written to disk; the length is in bytes. -/
def File.event (f : File) : Event :=
  ⟨.debug, Log.fileTarget, "Wrote generated file.",
    [⟨"path", f.path, false⟩, ⟨"len", toString f.contents.utf8ByteSize, false⟩]⟩

/-- How an emission ended; a failed one ends without an event. -/
def Emission.Report.events (r : Emission.Report) (directory : String) : List Event :=
  match r.outcome with
  | .error _ => []
  | .ok .nothing => [⟨.info, Log.emissionTarget, "No models or enums to emit.", []⟩]
  | .ok (.written paths) =>
    [⟨.info, Log.emissionTarget, "Zod validators generated.",
      [⟨"output_dir", directory, false⟩, ⟨"files", toString paths.length, false⟩]⟩]

/-- The events of an emission into memory. -/
def Namespace.emissionEvents (root : Namespace) (options : Options) (host : String)
    (r : Emission.Report) : List Event :=
  root.fileEvents options ++ r.events (options.directory host)

/-- The events of an emission to disk, where each write is logged. -/
def Namespace.diskEvents (root : Namespace) (options : Options) (host : String)
    (r : Emission.Report) : List Event :=
  root.fileEvents options ++ r.written.map File.event ++ r.events (options.directory host)

end ZodGraph
