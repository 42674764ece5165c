import Tableflow.Program.Schedule

/-!
Running a program: each pipeline once, producers first. A pipeline that waits for one that did not
succeed is blocked. Signals are published as their pipelines succeed.
-/

namespace Tableflow

inductive Outcome where
  | succeeded (table : Table)
  | failed (error : PipelineError)
  | blocked (signal producer : String)
  deriving BEq

def Outcome.isSuccess : Outcome → Bool
  | succeeded _ => true
  | _ => false

/-- Outcomes of the pipelines in the order in which they came up. -/
abbrev Report := OrderedMap Outcome

namespace Report

def isSuccess (r : Report) : Bool := r.values.all Outcome.isSuccess

def hasSucceeded (r : Report) (name : String) : Bool :=
  match r.get? name with
  | some outcome => outcome.isSuccess
  | none => false

end Report

namespace Program

/-- Publish tables one after the other; a signal that is taken stops it. -/
def publishAll (c : Context) : List (String × Table) → Except ProgramError Unit × Context
  | [] => (.ok (), c)
  | (signal, table) :: rest =>
    match c.publish? signal table with
    | some next => publishAll next rest
    | none => (.error (.alreadyPublished signal), c)

def runJobs (report : Report) (c : Context) : List Job → Logged (Except ProgramError Report × Context)
  | [] => return (.ok report, c)
  | job :: rest =>
    match job.needs.find? fun need => !report.hasSucceeded need.producer with
    | some need => do
      Logged.entry .warn .program
        s!"pipeline '{job.name}' blocked: '{need.producer}' did not publish signal '{need.signal}'"
      runJobs (report.insert job.name (.blocked need.signal need.producer)) c rest
    | none => do
      match ← job.pipeline.run c with
      | .ok result =>
        match publishAll c result.notifications with
        | (.ok (), next) => runJobs (report.insert job.name (.succeeded result.table)) next rest
        | (.error e, next) => return (.error e, next)
      | .error e =>
        Logged.entry .warn .program s!"pipeline '{job.name}' failed: {e.message}"
        runJobs (report.insert job.name (.failed e)) c rest

/-- Run a program. A program that publishes a signal twice, waits in a circle or publishes a signal
that is already there is refused before anything runs. -/
def run (p : Program) (c : Context) : Logged (Except ProgramError Report × Context) :=
  match p.schedule with
  | .error e => return (.error e, c)
  | .ok jobs =>
    match (p.notices.map Prod.fst).find? fun signal => (c.signal? signal).isSome with
    | some signal => return (.error (.alreadyPublished signal), c)
    | none => do
      let names := ", ".intercalate (jobs.map Job.name)
      Logged.entry .info .program s!"running {jobs.length} pipelines: {names}"
      runJobs .empty c jobs

end Program

end Tableflow
