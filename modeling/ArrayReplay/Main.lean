import ArrayReplay.CommandLine.Run
import ArrayReplay.Session.Frame

namespace ArrayReplay.Main

open CommandLine

/-- The fault behind an error of the file system. Reading and writing differ in the sign of the code. -/
def fault : IO.Error → FileFault
  | .noFileOrDirectory .. => .notFound
  | .permissionDenied .. => .denied
  | .inappropriateType _ code _ | .invalidArgument _ code _ =>
    if code = 20 ∨ -code = 20 then .notDirectory
    else if code = 36 ∨ -code = 36 then .nameTooLong
    else .isDirectory
  | _ => .isDirectory

def readText (name : String) : IO (Except FileFault String) := do
  try
    let bytes ← IO.FS.readBinFile name
    match String.fromUTF8? bytes with
    | some text => return .ok text
    | none => return .error .notUtf8
  catch e => return .error (fault e)

def createFile (name : String) : IO (Except FileFault Unit) := do
  try
    IO.FS.writeFile name ""
    return .ok ()
  catch e => return .error (fault e)

def lookUp (arguments : List String) : IO Files := do
  let options := match Options.ofArguments arguments with
    | .ok o => o
    | .error _ => {}
  let created ← match options.logFile with
    | some name => createFile name
    | none => pure (.ok ())
  let text ← match options.file with
    | some name => readText name
    | none => pure (.error .notFound)
  return { read := fun _ => text, create := fun _ => created }

def finish : Run → IO UInt32
  | .ended outcome => do
    IO.print outcome.output
    match outcome.logFile with
    | some name => IO.FS.writeFile name (String.join (outcome.log.map (· ++ "\n")))
    | none => outcome.log.forM fun line => IO.eprintln line
    outcome.errors.forM fun line => IO.eprintln line
    return outcome.exitCode.toUInt32
  | .showing source mode settings => do
    let session := Session.start source mode settings 1
    let (screen, _, _) := session.frame 80 24 0
    screen.forM fun row => IO.println (String.ofList (row.map Terminal.Cell.glyph))
    return 0

end ArrayReplay.Main

def main (arguments : List String) : IO UInt32 := do
  let files ← ArrayReplay.Main.lookUp arguments
  ArrayReplay.Main.finish (ArrayReplay.CommandLine.run arguments files)
