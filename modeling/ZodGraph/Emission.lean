import ZodGraph.FileFault
import ZodGraph.Package
import ZodGraph.Schema.Assembly
import ZodGraph.Store

/-!
Writing what a graph gives: the module and, if a package is set, the files around it. The writes
are planned as a list and then made in order up to the first that fails.
-/

namespace ZodGraph

open Schema (identifier)

/-- The files for a graph, with paths below the output directory. -/
def Namespace.files (root : Namespace) (options : Options) : List File :=
  let s := root.selection
  if s.isEmpty then []
  else
    let m := s.module options
    let schemas := m.definitions.map fun d => identifier d.name
    ⟨options.file, m.text⟩ ::
      match options.package? with
      | none => []
      | some p => p.files options.file schemas

/-- The files as they are to be written. -/
def Namespace.plan (root : Namespace) (options : Options) (host : String) : List File :=
  (root.files options).map fun f => { f with path := Path.join (options.directory host) f.path }

namespace Emission

structure Failure where
  path : String
  cause : FileFault
deriving DecidableEq

def Failure.message (f : Failure) : String :=
  "failed to write " ++ f.path ++ ": " ++ f.cause.message

/-- The files that were written, and the write that failed. -/
structure Report where
  written : List File := []
  failure : Option Failure := none
deriving DecidableEq, Inhabited

/-- Writes files in order until one fails. -/
def writeAll {m : Type → Type} [Monad m] (write : File → m (Option FileFault)) :
    List File → m Report
  | [] => pure {}
  | f :: fs => do
    match ← write f with
    | some cause => pure { failure := some ⟨f.path, cause⟩ }
    | none =>
      let rest ← writeAll write fs
      pure { rest with written := f :: rest.written }

inductive Outcome where
  | nothing
  | written (paths : List String)
deriving DecidableEq

def Report.outcome (r : Report) : Except Failure Outcome :=
  match r.failure with
  | some f => .error f
  | none => .ok (if r.written.isEmpty then .nothing else .written (r.written.map File.path))

/-- Writes what a graph gives. -/
def emit {m : Type → Type} [Monad m] (write : File → m (Option FileFault)) (root : Namespace)
    (options : Options) (host : String) : m Report :=
  writeAll write (root.plan options host)

/-- A store that may refuse one write: the one after as many as `refuse` says. -/
structure Guarded where
  store : Store := {}
  refuse : Option Nat := none
deriving Inhabited

def Guarded.write (f : File) : StateM Guarded (Option FileFault) := fun g =>
  match g.refuse with
  | some 0 => (some .readOnly, { g with refuse := none })
  | some (n + 1) => (none, ⟨g.store.write f.path f.contents, some n⟩)
  | none => (none, { g with store := g.store.write f.path f.contents })

/-- Writes what a graph gives to a store. -/
def emitToStore (root : Namespace) (options : Options) (host : String) (refuse : Option Nat)
    (s : Store) : Report × Store :=
  let (report, g) := emit Guarded.write root options host |>.run ⟨s, refuse⟩
  (report, g.store)

end Emission

end ZodGraph
