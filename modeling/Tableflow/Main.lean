import Tableflow.Command.Execute

/-!
The command line: reads the files that the arguments name, executes the request and prints.
-/

open Tableflow.Command

/-- The error of the operating system in words. -/
def fileError (e : IO.Error) : FileError :=
  match e with
  | .noFileOrDirectory _ _ _ => .notFound
  | .inappropriateType _ code _ => if code = 20 then .notDirectory else .isDirectory
  | .invalidArgument _ code details =>
    if code = 36 then .nameTooLong else .other s!"{details} (os error {code})"
  | .permissionDenied _ code details => .other s!"{details} (os error {code})"
  | other => .other (toString other)

def readFile (path : String) : IO (Except FileError ByteArray) := do
  try
    let bytes ← IO.FS.readBinFile path
    return .ok bytes
  catch e => return .error (fileError e)

def main (args : List String) : IO UInt32 := do
  match Request.ofArgs? args with
  | none =>
    IO.eprintln s!"usage: {programName} [-v] run PROGRAM [-s NAME=PATH] [-p] [-f json|csv] | check PROGRAM | catalog"
    return usageCode.toUInt32
  | some request =>
    let mut contents : List (String × Except FileError ByteArray) := []
    for path in request.paths do
      contents := (path, ← readFile path) :: contents
    let files : Files := fun path => (contents.lookup path).getD (.error .notFound)
    let ending := request.execute files
    IO.eprint ending.errors
    IO.print ending.output
    return ending.code.toUInt32
