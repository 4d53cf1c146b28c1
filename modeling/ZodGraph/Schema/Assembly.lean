import ZodGraph.Dependency.Order
import ZodGraph.Options
import ZodGraph.Schema.Build
import ZodGraph.Schema.Text

/-!
The module of a selection: the enums as selected, then the models, dependencies first.
-/

namespace ZodGraph

open Schema (Definition Import Metadata Module)

/-- Where generated modules take their validators from. -/
def zodImport : Import := ⟨["z"], "zod"⟩

def Options.metadata (o : Options) : Option Metadata :=
  if o.packageName.isNone ∧ o.packageVersion.isNone then none
  else some ⟨o.packageName, o.packageVersion⟩

/-- Defines models one after the other. A model is defined only after its own definition, so a
reference to itself is deferred. -/
def defineModels (scope : Scope) : List Model → List Definition
  | [] => []
  | m :: ms => ⟨m.name, m.expr scope⟩ :: defineModels (scope.define m.name) ms

def Selection.module (s : Selection) (options : Options) : Module where
  imports := [zodImport]
  metadata := options.metadata
  enums := s.enums.map fun e => ⟨e.name, e.expr⟩
  models := defineModels s.scope s.dependencyGraph.order

/-- The text of the module for a graph, unless there is nothing to put in it. -/
def Namespace.document (root : Namespace) (options : Options) : Option String :=
  let s := root.selection
  if s.isEmpty then none else some (s.module options).text

end ZodGraph
