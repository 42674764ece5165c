import Tableflow.Stage.Apply

/-!
Pipelines: stages in sequence, starting from the empty table. A run ends with the last table and
the tables published on the way, or with the first stage that fails.
-/

namespace Tableflow

structure Pipeline where
  stages : List Stage
  deriving BEq, Inhabited

/-- A stage that failed, with its place in the pipeline. -/
structure PipelineError where
  index : Nat
  kind : String
  cause : StageError
  deriving DecidableEq, Repr

def PipelineError.message (e : PipelineError) : String :=
  s!"Stage {e.index} ({e.kind}) failed: {e.cause.message}"

namespace Pipeline

def inputs (p : Pipeline) : List String := p.stages.flatMap Stage.inputs

def signals (p : Pipeline) : List String := p.stages.filterMap Stage.signal?

structure Result where
  table : Table
  /-- Signals with the tables as they stood when published, in order. -/
  notifications : List (String × Table)
  deriving BEq

inductive Phase where
  | ready
  | running (stage : Nat)
  | succeeded (result : Result)
  | failed (error : PipelineError)
  deriving BEq

def Phase.name : Phase → String
  | ready => "ready"
  | running stage => s!"running(stage {stage})"
  | succeeded _ => "succeeded"
  | failed _ => "failed"

def Phase.ofResult : Except PipelineError Result → Phase
  | .ok result => succeeded result
  | .error e => failed e

def Phase.isFinal : Phase → Bool
  | succeeded _ | failed _ => true
  | ready | running _ => false

def Phase.result : (phase : Phase) → phase.isFinal = true → Except PipelineError Result
  | succeeded result, _ => .ok result
  | failed e, _ => .error e

def logPhases (before after : Phase) : Logged Unit :=
  Logged.entry .debug .pipeline s!"pipeline state {before.name} -> {after.name}"

/-- What a stage publishes when it has made `table`. -/
def noticesOf (stage : Stage) (table : Table) : List (String × Table) :=
  match stage.signal? with
  | some signal => [(signal, table)]
  | none => []

/-! ### Runs -/

/-- One run of a pipeline, which happens at most once. -/
structure Run where
  pipeline : Pipeline
  phase : Phase

namespace Run

def start (p : Pipeline) : Run := ⟨p, .ready⟩

def advance (run : Run) (next : Phase) : Logged Run := do
  logPhases run.phase next
  return { run with phase := next }

/-- Run the stages that are left, from stage number `index` on, with the table and the
notifications that the earlier ones have made. -/
def loop (run : Run) (c : Context) (index : Nat) (table : Table)
    (notifications : List (String × Table)) : List Stage → Logged Run
  | [] => do
    Logged.entry .info .pipeline
      s!"pipeline finished with {table.rows.length} rows after {index} stages"
    run.advance (.succeeded ⟨table, notifications⟩)
  | stage :: rest => do
    let running ← run.advance (.running index)
    match ← stage.perform c table with
    | .ok next => running.loop c (index + 1) next (notifications ++ noticesOf stage next) rest
    | .error cause =>
      let e : PipelineError := ⟨index, stage.kind, cause⟩
      Logged.entry .warn .pipeline e.message
      running.advance (.failed e)

/-- Run a pipeline that has not run yet; a finished run stays as it is. -/
def execute (run : Run) (c : Context) : Logged Run :=
  match run.phase with
  | .ready => run.loop c 0 .empty [] run.pipeline.stages
  | _ => return run

theorem isFinal_loop (run : Run) (c : Context) (index : Nat) (table : Table)
    (notifications : List (String × Table)) (stages : List Stage) :
    (run.loop c index table notifications stages).value.phase.isFinal = true := by
  induction stages generalizing run index table notifications with
  | nil => rfl
  | cons stage rest ih =>
    rw [loop]
    cases applied : stage.apply c table with
    | ok next => simp only [Logged.value_bind, Stage.perform, Logged.value_pure, applied, ih]
    | error cause =>
      simp only [Logged.value_bind, Stage.perform, Logged.value_pure, applied]
      rfl

end Run

/-- The result of a new run, which is over when it has been executed. -/
def run (p : Pipeline) (c : Context) : Logged (Except PipelineError Result) :=
  let ended := (Run.start p).execute c
  ⟨ended.value.phase.result (Run.isFinal_loop (.start p) c 0 .empty [] p.stages), ended.log⟩

end Pipeline

end Tableflow
