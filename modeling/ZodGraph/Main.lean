import ZodGraph.Command.Run

/-!
The program on the files of the system.
-/

namespace ZodGraph

/-- The fault behind an error of the system. -/
def FileFault.ofError : IO.Error → FileFault
  | .noFileOrDirectory .. => .missing
  | .alreadyExists .. => .alreadyExists
  | .inappropriateType _ code details =>
    if code = 20 then .notDirectory
    else if code = 21 then .isDirectory
    else .other details
  | e => .other (toString e)

def readSystemFile (path : String) : IO (Except FileFault String) := do
  try
    match String.fromUTF8? (← IO.FS.readBinFile path) with
    | some s => return .ok s
    | none => return .error .notText
  catch e => return .error (.ofError e)

/-- Makes the directories above a file and writes it. -/
def writeSystemFile (f : File) : IO (Option FileFault) := do
  try
    let above := (Path.parent? f.path).getD ""
    unless above.isEmpty do IO.FS.createDirAll above
    IO.FS.writeFile f.path f.contents
    return none
  catch e => return some (.ofError e)

def Notice.print : Notice → IO Unit
  | .event e => IO.eprintln (e.level.name ++ " " ++ e.target ++ ": " ++ e.body)
  | .line text => IO.eprintln text

end ZodGraph

open ZodGraph in
def main (args : List String) : IO UInt32 := do
  let setting ← IO.getEnv "ZODSPEC_LOG"
  let o ← runProgram ⟨readSystemFile, writeSystemFile⟩ setting args
  o.notices.forM Notice.print
  IO.print o.output
  return o.code.toUInt32
