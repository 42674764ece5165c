import Tableflow.Pipeline

/-!
Programs: named pipelines that depend on each other through signals. A pipeline depends on the one
that publishes a name it loads; names that nobody publishes are external sources.
-/

namespace Tableflow

structure Program where
  pipelines : OrderedMap Pipeline
  deriving BEq, Inhabited

inductive ProgramError where
  /-- Pipelines that wait for each other; the first is named again at the end. -/
  | cycle (path : List String)
  | duplicateSignal (signal first second : String)
  | alreadyPublished (signal : String)
  deriving DecidableEq, Repr

def ProgramError.message : ProgramError → String
  | cycle path => "Dependency cycle between pipelines: " ++ " -> ".intercalate path
  | duplicateSignal signal first second =>
    s!"Signal '{signal}' is notified by both '{first}' and '{second}'"
  | alreadyPublished signal => s!"Signal '{signal}' has already been published"

/-- A signal that is waited for, and the pipeline that publishes it. -/
structure Dependency where
  signal : String
  producer : String
  deriving DecidableEq, Repr

namespace Program

/-- All published signals with their pipelines, in order of definition and of stages. -/
def notices (p : Program) : List (String × String) :=
  p.pipelines.entries.flatMap fun (name, pipeline) => pipeline.signals.map fun s => (s, name)

/-- Register signals with their producers; each signal has one. -/
def register (known : OrderedMap String) : List (String × String) → Except ProgramError (OrderedMap String)
  | [] => .ok known
  | (signal, name) :: rest =>
    match known.get? signal with
    | some first => .error (.duplicateSignal signal first name)
    | none => register (known.insert signal name) rest

def producers (p : Program) : Except ProgramError (OrderedMap String) := register .empty p.notices

/-- Whom a pipeline waits for, in the order in which its stages load the signals, each once. -/
def dependenciesOf (producers : OrderedMap String) (pipeline : Pipeline) : List Dependency :=
  (Names.distinct pipeline.inputs).filterMap fun input =>
    (producers.get? input).map fun producer => ⟨input, producer⟩

def dependencies (p : Program) : Except ProgramError (OrderedMap (List Dependency)) :=
  p.producers.map fun producers => p.pipelines.map (dependenciesOf producers)

end Program

end Tableflow
