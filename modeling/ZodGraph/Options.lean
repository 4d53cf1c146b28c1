/-!
What a user sets, and what holds where nothing is set.
-/

namespace ZodGraph

structure Options where
  outputDir : Option String := none
  outputFile : Option String := none
  packageName : Option String := none
  packageVersion : Option String := none
deriving DecidableEq, Inhabited

/-- A package to publish the module in. -/
structure Package where
  name : String
  version : String
deriving DecidableEq, Inhabited

namespace Options

/-- What the overrides set wins. -/
def merge (base overrides : Options) : Options where
  outputDir := overrides.outputDir.or base.outputDir
  outputFile := overrides.outputFile.or base.outputFile
  packageName := overrides.packageName.or base.packageName
  packageVersion := overrides.packageVersion.or base.packageVersion

/-- The file of the module. -/
def file (o : Options) : String := o.outputFile.getD "schemas.ts"

/-- The directory of all files, given the one to use by default. -/
def directory (o : Options) (host : String) : String := o.outputDir.getD host

/-- There is a package only once it has both a name and a version. -/
def package? (o : Options) : Option Package :=
  match o.packageName, o.packageVersion with
  | some name, some version => some ⟨name, version⟩
  | _, _ => none

end Options

end ZodGraph
