import Tableflow.Command.Options
import Tableflow.Command.Palette
import Tableflow.Text.Controls

/-!
A command line as a whole: from arguments and files to an exit code and the texts on standard
output and standard error.
-/

namespace Tableflow.Command

structure Ending where
  code : Nat
  output : String
  errors : String
  deriving DecidableEq, Repr

/-- Wrong arguments. -/
def usageCode : Nat := 2

def programName : String := "briq"

def programVersion : String := "0.2.0"

/-! ### Log lines -/

/-- The least verbosity at which entries of a level are shown. -/
def levelVerbosity : Log.Level → Nat
  | .warn => 0
  | .info => 1
  | .debug => 2

def levelName : Log.Level → String
  | .warn => "WARN"
  | .info => "INFO"
  | .debug => "DEBUG"

def originName : Log.Origin → String
  | .stages => programName ++ "::transform"
  | .pipeline => programName ++ "::pipeline"
  | .program => programName ++ "::program"
  | .sources => programName ++ "::cli::convert"

/-- Lines after the first are indented. -/
def indentLines (text : String) : String :=
  String.ofList (text.toList.flatMap fun c => if c = '\n' then ['\n', ' ', ' ', ' ', ' '] else [c])

/-- Level, filled up to five characters, origin and text of an entry, without terminal controls. A
sequence that is still open at the end of the entry takes the end of the line with it. -/
def entryText (e : Log.Entry) : String :=
  let level := levelName e.level
  let fill := String.ofList (List.replicate (5 - level.length) ' ')
  Text.withoutControls s!"[{level}{fill} {originName e.origin}] {indentLines e.text}\n"

def logText (verbosity : Nat) (log : List Log.Entry) : String :=
  String.join ((log.filter fun e => levelVerbosity e.level ≤ verbosity).map entryText)

/-! ### Requests -/

def executeRun (files : Files) (verbosity : Nat) (program : String) (sources : List String)
    (pretty : Bool) (format : Format) : Ending :=
  match sources.mapM Source.ofArg with
  | .error e => ⟨1, "", e.message ++ "\n"⟩
  | .ok sources =>
    let ⟨result, log⟩ := run files ⟨program, sources, pretty, format⟩
    let logged := logText verbosity log
    match result.ending with
    | .error e => ⟨1, result.written, logged ++ e.message ++ "\n"⟩
    | .ok tally =>
      if tally.isSuccess then ⟨0, result.written, logged⟩
      else ⟨1, result.written, logged ++ tally.message ++ "\n"⟩

def executeCheck (files : Files) (program : String) : Ending :=
  match check files program with
  | .error e => ⟨1, "", e.message ++ "\n"⟩
  | .ok order =>
    ⟨0, "Program is valid. Run order: " ++ ", ".intercalate order ++ "\n", ""⟩

def Request.execute (files : Files) : Request → Ending
  | version => ⟨0, programName ++ " " ++ programVersion ++ "\n", ""⟩
  | run verbosity program sources pretty format =>
    executeRun files verbosity program sources pretty format
  | check _ program => executeCheck files program
  | catalog _ => ⟨0, palette.pretty ++ "\n", ""⟩

/-- Execute a command line; nothing if its arguments make no sense. -/
def execute? (files : Files) (args : List String) : Option Ending :=
  (Request.ofArgs? args).map fun request => request.execute files

end Tableflow.Command
