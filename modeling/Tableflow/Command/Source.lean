import Tableflow.Command.Error
import Tableflow.Command.Path
import Tableflow.Log

/-!
External sources: arguments of the form `name=path`, and files loaded as tables by the extension
of their names.
-/

namespace Tableflow.Command

structure Source where
  name : String
  path : String
  deriving DecidableEq, Repr

/-- Split at the first equals sign; both sides must hold more than blanks. -/
def Source.ofArg (arg : String) : Except Error Source :=
  let name := arg.toList.takeWhile fun c => c ≠ '='
  match arg.toList.dropWhile fun c => c ≠ '=' with
  | _ :: path =>
    let source : Source := ⟨String.ofList (Text.trimChars name), String.ofList (Text.trimChars path)⟩
    if source.name = "" ∨ source.path = "" then .error (.sourceArg arg) else .ok source
  | [] => .error (.sourceArg arg)

def loadCsv (files : Files) (path : String) : Except Error Table :=
  match files path with
  | .error .isDirectory => .error (.csvFile .isDirectory)
  | .error e => .error (.file path e)
  | .ok bytes => (Table.ofCsv bytes).mapError Error.ofCsv

def loadJson (files : Files) (path : String) : Except Error Table := do
  let text ← readText files path
  match Json.ofText? text with
  | none => .error .notJson
  | some json => (Table.ofJson json).mapError .document

def load (files : Files) (path : String) : Logged (Except Error Table) :=
  let loaded := match extension? path with
    | some "csv" => loadCsv files path
    | some "json" => loadJson files path
    | _ => .error (.sourceFormat path)
  match loaded with
  | .error e => return .error e
  | .ok table => do
    Logged.entry .info .sources
      s!"loaded {table.rows.length} rows ({table.columns.length} columns) from {path}"
    return .ok table

end Tableflow.Command
