import Tableflow.Program.Basic

/-!
The order in which pipelines run: producers before those that wait for them, and otherwise as they
are defined. Pipelines that wait for each other in a circle have no order.
-/

namespace Tableflow

structure Job where
  name : String
  pipeline : Pipeline
  needs : List Dependency

namespace Schedule

def isMet (order : List Job) (job : Job) : Bool :=
  job.needs.all fun need => order.any fun earlier => earlier.name = need.producer

/-! ### Cycles

`done` has a mark for each job, in the order of the jobs. -/

def isPending (jobs : List Job) (done : List Bool) (name : String) : Bool :=
  ((jobs.zip done).find? fun entry => entry.1.name = name).any fun entry => !entry.2

/-- The first pending producer that a job waits for. -/
def blocker? (jobs : List Job) (done : List Bool) (name : String) : Option String :=
  match jobs.find? fun job => job.name = name with
  | some job => (job.needs.map Dependency.producer).find? (isPending jobs done)
  | none => none

/-- Follow pending producers from `current`, the last of `path`, until one comes again. A path
without repetition is at most as long as the list of jobs. -/
def walk (jobs : List Job) (done : List Bool) :
    (fuel : Nat) → (path : List String) → (current : String) → List String
  | 0, path, _ => path
  | fuel + 1, path, current =>
    match blocker? jobs done current with
    | none => path
    | some next =>
      if next ∈ path then path.dropWhile (fun name => name ≠ next) ++ [next]
      else walk jobs done fuel (path ++ [next]) next

def findCycle (jobs : List Job) (done : List Bool) : List String :=
  match (jobs.zip done).find? fun entry => !entry.2 with
  | some (first, _) => walk jobs done jobs.length [first.name] first.name
  | none => []

/-! ### Order -/

/-- Append the earliest defined job that is not done and whose producers are, `count` times. -/
def extend (jobs : List Job) : (count : Nat) → (order : List Job) → (done : List Bool) →
    Except ProgramError (List Job)
  | 0, order, _ => .ok order
  | count + 1, order, done =>
    match (jobs.zip done).zipIdx.find? fun entry => !entry.1.2 && isMet order entry.1.1 with
    | some ((job, _), index) => extend jobs count (order ++ [job]) (done.set index true)
    | none => .error (.cycle (findCycle jobs done))

def order (jobs : List Job) : Except ProgramError (List Job) :=
  extend jobs jobs.length [] (List.replicate jobs.length false)

end Schedule

namespace Program

def jobs (p : Program) : Except ProgramError (List Job) :=
  p.producers.map fun producers =>
    p.pipelines.entries.map fun (name, pipeline) =>
      ⟨name, pipeline, dependenciesOf producers pipeline⟩

/-- The jobs of a program in the order in which they run. -/
def schedule (p : Program) : Except ProgramError (List Job) := p.jobs >>= Schedule.order

def runOrder (p : Program) : Except ProgramError (List String) :=
  p.schedule.map fun jobs => jobs.map Job.name

end Program

end Tableflow
