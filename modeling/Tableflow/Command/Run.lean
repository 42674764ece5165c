import Tableflow.Command.Source
import Tableflow.Program.Run

/-!
The commands that run and check a program document, as functions of the files they see.
-/

namespace Tableflow.Command

inductive Format where
  | json | csv
  deriving DecidableEq, Repr

structure RunOptions where
  program : String
  sources : List Source
  pretty : Bool
  format : Format

/-- How many pipelines ended in which way. -/
structure Tally where
  succeeded : Nat
  failed : Nat
  blocked : Nat
  deriving DecidableEq, Repr

namespace Tally

def add (t : Tally) : Outcome → Tally
  | .succeeded _ => { t with succeeded := t.succeeded + 1 }
  | .failed _ => { t with failed := t.failed + 1 }
  | .blocked _ _ => { t with blocked := t.blocked + 1 }

def ofReport (r : Report) : Tally := r.values.foldl add ⟨0, 0, 0⟩

def isSuccess (t : Tally) : Bool := t.failed = 0 && t.blocked = 0

def message (t : Tally) : String :=
  s!"{t.succeeded} succeeded, {t.failed} failed, {t.blocked} blocked"

end Tally

/-! ### Reports -/

def outcomeToJson : Outcome → Json
  | .succeeded table => .object [("status", .string "succeeded"), ("table", table.toJson)]
  | .failed e =>
    .object [("status", .string "failed"), ("stage", .int e.index), ("error", .string e.message)]
  | .blocked signal producer =>
    .object
      [("status", .string "blocked"), ("signal", .string signal), ("producer", .string producer)]

def reportToJson (r : Report) : Json :=
  .object (r.entries.map fun (name, outcome) => (name, outcomeToJson outcome))

/-- Outcomes with a line for each name; a table follows its line. An error stops the writing. -/
def reportToCsv : List (String × Outcome) → Csv.Output
  | [] => ⟨[], none⟩
  | (name, outcome) :: rest =>
    let block : Csv.Output := match outcome with
      | .succeeded table =>
        let output := table.toCsv
        ⟨s!"# {name}\n".toList ++ output.chars, output.error⟩
      | .failed e => ⟨s!"# {name}: failed: {e.message}\n".toList, none⟩
      | .blocked signal producer =>
        ⟨s!"# {name}: blocked: '{producer}' did not publish '{signal}'\n".toList, none⟩
    match block.error with
    | some e => ⟨block.chars, some e⟩
    | none =>
      let output := reportToCsv rest
      ⟨block.chars ++ output.chars, output.error⟩

/-! ### Commands -/

/-- What a run has written, and how it ended. -/
structure RunResult where
  written : String
  ending : Except Error Tally

def loadSources (files : Files) (c : Context) : List Source → Logged (Except Error Context)
  | [] => return .ok c
  | source :: rest => do
    match ← load files source.path with
    | .ok table => loadSources files (c.addSource source.name table) rest
    | .error e => return .error e

def writeReport (options : RunOptions) (report : Report) : RunResult :=
  match options.format with
  | .json =>
    let json := reportToJson report
    ⟨(if options.pretty then json.pretty else json.compact) ++ "\n", .ok (.ofReport report)⟩
  | .csv =>
    let output := reportToCsv report.entries
    match output.error with
    | some e => ⟨output.text, .error (.csv e)⟩
    | none => ⟨output.text, .ok (.ofReport report)⟩

/-- Load the sources, run the program and write the outcome of every pipeline. -/
def run (files : Files) (options : RunOptions) : Logged RunResult := do
  match readProgram files options.program with
  | .error e => return ⟨"", .error e⟩
  | .ok program =>
    match ← loadSources files .empty options.sources with
    | .error e => return ⟨"", .error e⟩
    | .ok c =>
      match ← program.run c with
      | (.error e, _) => return ⟨"", .error (.program e)⟩
      | (.ok report, _) => return writeReport options report

def check (files : Files) (path : String) : Except Error (List String) := do
  let program ← readProgram files path
  program.runOrder.mapError .program

end Tableflow.Command
