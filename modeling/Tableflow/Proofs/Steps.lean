import Tableflow.Proofs.Course

/-!
The steps of a run: the stages that it applies, each with the table that it is applied to and with
the tables that can be loaded then. A run logs one entry for each of its steps.
-/

namespace Tableflow

structure Step where
  seen : Context
  stage : Stage
  input : Table

namespace Step

def result (step : Step) : Except StageError Table := step.stage.apply step.seen step.input

def entry (step : Step) : Log.Entry :=
  let kind := step.stage.kind
  let rows := step.input.rows.length
  let columns := step.input.columns.length
  ⟨.debug, .stages, s!"applying {kind} to {rows} rows ({columns} columns)"⟩

end Step

/-- The entries that stages log. -/
def Log.ofStages (log : List Log.Entry) : List Log.Entry :=
  log.filter fun entry => entry.origin = .stages

/-! ### One pipeline -/

namespace Pipeline

variable {c : Context} {table : Table} {stages : List Stage} {step : Step}

/-- The steps that `stages` take from `table` on. A step that fails is the last one. -/
def stepsFrom (c : Context) (table : Table) : List Stage → List Step
  | [] => []
  | stage :: rest =>
    ⟨c, stage, table⟩ ::
      match stage.apply c table with
      | .ok next => stepsFrom c next rest
      | .error _ => []

def steps (p : Pipeline) (c : Context) : List Step := stepsFrom c .empty p.stages

theorem stage_mem_of_stepsFrom (member : step ∈ stepsFrom c table stages) : step.stage ∈ stages := by
  induction stages generalizing table with
  | nil => cases member
  | cons stage rest ih =>
    rcases List.mem_cons.mp member with rfl | later
    · exact List.mem_cons_self
    · split at later
      · exact List.mem_cons_of_mem _ (ih later)
      · cases later

theorem log_runFrom (c : Context) (phase : Phase) (index : Nat) (table : Table)
    (notifications : List (String × Table)) (stages : List Stage) :
    Log.ofStages (runFrom c phase index table notifications stages).log =
      (stepsFrom c table stages).map Step.entry := by
  induction stages generalizing phase index table notifications with
  | nil => rfl
  | cons stage rest ih =>
    cases applied : stage.apply c table with
    | ok next =>
      have later := ih (.running index) (index + 1) next (notifications ++ noticesOf stage next)
      have logged : (runFrom c phase index table notifications (stage :: rest)).log =
          (logPhases phase (.running index)).log ++ Step.entry ⟨c, stage, table⟩ ::
            (runFrom c (.running index) (index + 1) next
              (notifications ++ noticesOf stage next) rest).log := by
        simp only [runFrom, Stage.perform, Logged.log_bind, Logged.value_bind, Logged.value_pure,
          applied]
        rfl
      rw [logged, stepsFrom, applied, List.map_cons, ← later]
      rfl
    | error cause =>
      simp only [runFrom, stepsFrom, Stage.perform, Logged.log_bind, Logged.value_bind,
        Logged.value_pure, applied]
      rfl

/-- A run fails with its last step. -/
theorem step_of_runFrom {phase : Phase} {index : Nat} {notifications : List (String × Table)}
    {e : PipelineError}
    (failed : (runFrom c phase index table notifications stages).value = .error e) :
    ∃ step ∈ stepsFrom c table stages, step.result = .error e.cause := by
  induction stages generalizing phase index table notifications with
  | nil => cases failed
  | cons stage rest ih =>
    simp only [runFrom, Logged.value_bind, Stage.perform, Logged.value_pure] at failed
    cases applied : stage.apply c table with
    | error cause =>
      rw [applied] at failed
      obtain rfl := Except.error.inj failed
      exact ⟨_, List.mem_cons_self, applied⟩
    | ok next =>
      rw [applied] at failed
      obtain ⟨step, member, result⟩ := ih failed
      refine ⟨step, List.mem_cons_of_mem _ ?_, result⟩
      rwa [applied]

end Pipeline

/-! ### All pipelines -/

namespace Program

variable {p : Program} {c : Context} {order : List Job} {step : Step}

def Turn.steps (turn : Turn) : List Step :=
  match turn.outcome with
  | .blocked _ _ => []
  | _ => turn.pipeline.steps turn.seen

/-- The steps of a run in their order. A run that is refused takes none. -/
def steps (p : Program) (c : Context) : List Step :=
  match (p.run c).value.1, p.schedule with
  | .ok _, .ok order => (turnsFrom (.empty, c) order).flatMap Turn.steps
  | _, _ => []

theorem log_turn (turn : Turn) : Log.ofStages turn.log = turn.steps.map Step.entry := by
  have ran := Pipeline.log_runFrom turn.seen .ready 0 .empty [] turn.pipeline.stages
  rw [← Pipeline.run_eq_runFrom] at ran
  unfold Turn.log Turn.steps
  cases turn.outcome with
  | succeeded table => exact ran
  | failed e =>
    simp only [Log.ofStages, List.filter_append]
    rw [← List.append_nil (List.map _ _)]
    exact congrArg (· ++ []) ran
  | blocked signal producer => rfl

theorem plan_of_schedule (made : p.schedule = .ok order)
    (free : p.signals.find? (fun signal => (c.signal? signal).isSome) = none) :
    ∃ producers, Plan p c producers order := by
  have unique : p.signals.Nodup := by
    by_contra repeated
    obtain ⟨_, _, _, _, refused⟩ := producers_of_repeat repeated
    rw [schedule, jobs, refused] at made
    cases made
  have untaken : ∀ signal ∈ p.signals, c.signal? signal = none := by
    intro signal published
    simpa using List.find?_eq_none.mp free signal published
  obtain ⟨producers, jobs, _, listed, ⟨_, _, made', greedy, perm⟩ | ⟨_, _, refused⟩⟩ :=
    schedule_cases unique
  · obtain rfl := Except.ok.inj (made.symm.trans made')
    exact ⟨producers, listed.perm perm, greedy.sequenced, unique, untaken⟩
  · cases made.symm.trans refused

theorem steps_of_plan {producers : OrderedMap String} (plan : Plan p c producers order)
    (made : p.schedule = .ok order) :
    p.steps c = (turnsFrom (.empty, c) order).flatMap Turn.steps := by
  rw [steps, run_of_plan plan made, made]

/-- A run is refused without a step, or it carries out a plan. -/
theorem steps_cases (p : Program) (c : Context) :
    (p.steps c = [] ∧ (p.run c).log = [] ∧ ∃ e, (p.run c).value = (.error e, c)) ∨
    ∃ producers order, p.schedule = .ok order ∧ Plan p c producers order := by
  cases made : p.schedule with
  | error e =>
    have refused : p.run c = ⟨(.error e, c), []⟩ := by
      rw [run, made]
      rfl
    exact Or.inl ⟨by rw [steps, refused], by rw [refused], e, by rw [refused]⟩
  | ok order =>
    cases found : p.signals.find? fun signal => (c.signal? signal).isSome with
    | some signal =>
      have refused : p.run c = ⟨(.error (.alreadyPublished signal), c), []⟩ := by
        rw [run, made, names_notices, found]
        rfl
      exact Or.inl ⟨by rw [steps, refused], by rw [refused], _, by rw [refused]⟩
    | none =>
      obtain ⟨producers, plan⟩ := plan_of_schedule made found
      exact Or.inr ⟨producers, order, rfl, plan⟩

/-- The steps are all that stages log in a run. -/
theorem log_run (p : Program) (c : Context) :
    Log.ofStages (p.run c).log = (p.steps c).map Step.entry := by
  rcases steps_cases p c with ⟨none, silent, _⟩ | ⟨producers, order, made, plan⟩
  · rw [none, silent]
    rfl
  · rw [log_run_of_plan plan made, steps_of_plan plan made, List.map_flatMap]
    show Log.ofStages ((turnsFrom (.empty, c) order).flatMap Turn.log) = _
    rw [Log.ofStages, List.filter_flatMap]
    exact List.flatMap_congr fun turn _ => log_turn turn

theorem stage_of_mem_steps (member : step ∈ p.steps c) :
    ∃ name pipeline, p.pipelines.get? name = some pipeline ∧ step.stage ∈ pipeline.stages := by
  rcases steps_cases p c with ⟨none, _⟩ | ⟨producers, order, made, plan⟩
  · rw [none] at member
    cases member
  · rw [steps_of_plan plan made] at member
    obtain ⟨turn, coming, member⟩ := List.mem_flatMap.mp member
    obtain ⟨before, job, after, split, rfl⟩ := mem_turnsFrom coming
    refine ⟨job.name, job.pipeline, plan.listed.pipeline job (by simp [split]), ?_⟩
    unfold Turn.steps at member
    split at member
    · cases member
    · exact Pipeline.stage_mem_of_stepsFrom member

theorem step_of_failure {report : Report} {name : String} {e : PipelineError}
    (ran : (p.run c).value.1 = .ok report) (failed : report.get? name = some (.failed e)) :
    ∃ step ∈ p.steps c, step.result = .error e.cause := by
  rcases steps_cases p c with ⟨_, _, _, refused⟩ | ⟨producers, order, made, plan⟩
  · rw [refused] at ran
    cases ran
  · have course := course_of_plan plan made
    rw [run_of_plan plan made] at ran
    obtain rfl := Except.ok.inj ran
    rw [OrderedMap.get?_eq_some_iff, course.outcomes] at failed
    obtain ⟨turn, coming, same⟩ := List.mem_map.mp failed
    have outcome : turn.outcome = .failed e := (Prod.mk.inj same).2
    have fared := course.fared turn coming
    rw [outcome] at fared
    have failed := fared.1
    rw [Pipeline.run_eq_runFrom] at failed
    obtain ⟨step, member, result⟩ := Pipeline.step_of_runFrom failed
    refine ⟨step, ?_, result⟩
    rw [steps_of_plan plan made]
    refine List.mem_flatMap.mpr ⟨turn, coming, ?_⟩
    rwa [Turn.steps, outcome]

end Program

end Tableflow
