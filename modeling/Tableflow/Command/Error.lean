import Tableflow.Document.Program
import Tableflow.Table.Csv

/-!
What can go wrong on the command line. Files are given as a function from paths to their bytes.
-/

namespace Tableflow.Command

inductive FileError where
  | notFound
  | isDirectory
  | notDirectory
  | nameTooLong
  /-- A name with the zero character, which no file can have. -/
  | zeroInName
  | notText
  | other (text : String)
  deriving DecidableEq, Repr

def FileError.message : FileError → String
  | notFound => "No such file or directory (os error 2)"
  | isDirectory => "Is a directory (os error 21)"
  | notDirectory => "Not a directory (os error 20)"
  | nameTooLong => "File name too long (os error 36)"
  | zeroInName => "file name contained an unexpected NUL byte"
  | notText => "stream did not contain valid UTF-8"
  | other text => text

/-- The files that a command can see. -/
abbrev Files := String → Except FileError ByteArray

inductive Error where
  | document (error : DocumentError)
  | program (error : ProgramError)
  | notJson
  | csv (error : Csv.Error)
  /-- A file that opens as comma-separated text and cannot be read. -/
  | csvFile (error : FileError)
  | file (path : String) (error : FileError)
  | sourceArg (arg : String)
  | duplicateHeader (name : String)
  | sourceFormat (path : String)

def Error.message : Error → String
  | document e => s!"Parse error: {e.message}"
  | program e => s!"Program error: {e.message}"
  | notJson => "Invalid JSON"
  | csv e => s!"CSV error: {e.message}"
  | csvFile e => s!"CSV error: {e.message}"
  | file path e => s!"Cannot read '{path}': {e.message}"
  | sourceArg arg => s!"Invalid source '{arg}': expected name=path"
  | duplicateHeader name => s!"Duplicate CSV header '{name}'"
  | sourceFormat path => s!"Unsupported source format '{path}': expected .csv or .json"

def Error.ofCsv : CsvError → Error
  | .records e => csv e
  | .duplicateHeader name => duplicateHeader name

def readText (files : Files) (path : String) : Except Error String := do
  let bytes ← (files path).mapError (Error.file path)
  match String.fromUTF8? bytes with
  | some text => return text
  | none => .error (.file path .notText)

def readProgram (files : Files) (path : String) : Except Error Program := do
  let text ← readText files path
  (Program.ofText text).mapError .document

end Tableflow.Command
