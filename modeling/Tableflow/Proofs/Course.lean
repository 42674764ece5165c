import Tableflow.Proofs.AllOrNothing

/-!
The course of a run: its turns one by one, with the context that each of them met. What a run logs is
what its turns log, and a turn logs one run of its pipeline, or that the pipeline was blocked.
-/

namespace Tableflow

theorem Context.record_append (c : Context) (first second : List (String × Table)) :
    c.record (first ++ second) = (c.record first).record second := by
  simp only [record, List.foldl_append]

namespace Program

/-- One turn of a run. -/
structure Turn where
  name : String
  pipeline : Pipeline
  seen : Context
  outcome : Outcome
  published : List (String × Table)

/-- The entries of one turn. Those of the pipeline itself are there once, unless it is blocked. -/
def Turn.log (turn : Turn) : List Log.Entry :=
  let name := turn.name
  match turn.outcome with
  | .succeeded _ => (turn.pipeline.run turn.seen).log
  | .failed e =>
    let text := e.message
    (turn.pipeline.run turn.seen).log ++ [⟨.warn, .program, s!"pipeline '{name}' failed: {text}"⟩]
  | .blocked signal producer =>
    [⟨.warn, .program, s!"pipeline '{name}' blocked: '{producer}' did not publish signal '{signal}'"⟩]

/-- The entry with which a run begins. -/
def opening (names : List String) : Log.Entry :=
  let text := ", ".intercalate names
  ⟨.info, .program, s!"running {names.length} pipelines: {text}"⟩

/-- `turns` is a whole run: every pipeline has one turn, which meets what the turns before it have
published, and beside these turns nothing is reported, published or logged. -/
structure Course (p : Program) (c : Context) (report : Report) (final : Context)
    (log : List Log.Entry) (turns : List Turn) : Prop where
  complete : (turns.map Turn.name).Perm p.pipelines.keys
  pipeline : ∀ turn ∈ turns, p.pipelines.get? turn.name = some turn.pipeline
  seen : ∀ before turn after, turns = before ++ turn :: after →
    turn.seen = c.record (before.flatMap Turn.published)
  fared : ∀ turn ∈ turns, turn.pipeline.Fared turn.seen turn.outcome turn.published
  outcomes : report.entries = turns.map fun turn => (turn.name, turn.outcome)
  published : final = c.record (turns.flatMap Turn.published)
  logged : log = opening (turns.map Turn.name) :: turns.flatMap Turn.log

/-- The turn of a job that comes up in the given state. -/
def turnOf (state : Report × Context) (job : Job) : Turn :=
  ⟨job.name, job.pipeline, state.2, (job.attempt state.1 state.2).1,
    (job.attempt state.1 state.2).2⟩

def turnsFrom (state : Report × Context) : List Job → List Turn
  | [] => []
  | job :: rest => turnOf state job :: turnsFrom (advance state job) rest

variable {p : Program} {c : Context} {producers : OrderedMap String} {jobs order : List Job}
  {state : Report × Context}

theorem names_turnsFrom : (turnsFrom state jobs).map Turn.name = jobs.map Job.name := by
  induction jobs generalizing state with
  | nil => rfl
  | cons job rest ih => simp only [turnsFrom, List.map_cons, ih, turnOf]

theorem mem_turnsFrom {turn : Turn} (member : turn ∈ turnsFrom state jobs) :
    ∃ before job after, jobs = before ++ job :: after ∧
      turn = turnOf (before.foldl advance state) job := by
  induction jobs generalizing state with
  | nil => simp [turnsFrom] at member
  | cons job rest ih =>
    rcases List.mem_cons.mp member with rfl | later
    · exact ⟨[], job, rest, rfl, rfl⟩
    · obtain ⟨before, other, after, split, same⟩ := ih later
      exact ⟨job :: before, other, after, by rw [split, List.cons_append], same⟩

theorem seen_turnsFrom {before after : List Turn} {turn : Turn}
    (split : turnsFrom state jobs = before ++ turn :: after) :
    turn.seen = state.2.record (before.flatMap Turn.published) := by
  induction jobs generalizing state before with
  | nil => simp [turnsFrom] at split
  | cons job rest ih =>
    cases before with
    | nil =>
      obtain ⟨rfl, _⟩ := List.cons.inj split
      rfl
    | cons first before =>
      obtain ⟨rfl, later⟩ := List.cons.inj split
      rw [ih later, List.flatMap_cons, Context.record_append]
      rfl

theorem record_turnsFrom :
    (jobs.foldl advance state).2 = state.2.record ((turnsFrom state jobs).flatMap Turn.published) := by
  induction jobs generalizing state with
  | nil => rfl
  | cons job rest ih =>
    rw [List.foldl_cons, ih, turnsFrom, List.flatMap_cons, Context.record_append]
    rfl

theorem outcomes_turnsFrom (distinct : (state.1.keys ++ jobs.map Job.name).Nodup) :
    (jobs.foldl advance state).1.entries =
      state.1.entries ++ (turnsFrom state jobs).map fun turn => (turn.name, turn.outcome) := by
  induction jobs generalizing state with
  | nil => exact (List.append_nil _).symm
  | cons job rest ih =>
    have absent : job.name ∉ state.1.keys := fun here =>
      (List.nodup_append.mp distinct).2.2 _ here _ (by simp) rfl
    have grown : (advance state job).1.entries =
        state.1.entries ++ [(job.name, (turnOf state job).outcome)] :=
      OrderedMap.entries_insert_of_fresh _ absent
    have onward : ((advance state job).1.keys ++ rest.map Job.name).Nodup := by
      simpa [OrderedMap.keys, grown] using distinct
    rw [List.foldl_cons, ih onward, grown, turnsFrom, List.append_assoc]
    rfl

theorem log_runJobs_cons {report : Report} {c : Context} {job : Job} {rest : List Job}
    (free : Unclaimed c (job :: rest)) :
    (runJobs report c (job :: rest)).log = (turnOf (report, c) job).log ++
      (runJobs (advance (report, c) job).1 (advance (report, c) job).2 rest).log := by
  have published := publishAll_eq_record (free.fresh report)
  cases found : job.needs.find? fun need => !report.hasSucceeded need.producer with
  | some need =>
    have made : job.attempt report c = (.blocked need.signal need.producer, []) := by
      rw [Job.attempt, found]
    simp only [runJobs, found, Logged.log_bind, turnOf, advance, made, Turn.log]
    rfl
  | none =>
    cases ended : (job.pipeline.run c).value with
    | error e =>
      have made : job.attempt report c = (.failed e, []) := by rw [Job.attempt, found, ended]
      simp only [runJobs, found, Logged.log_bind, ended, turnOf, advance, made, Turn.log,
        List.append_assoc]
      rfl
    | ok result =>
      have made : job.attempt report c = (.succeeded result.table, result.notifications) := by
        rw [Job.attempt, found, ended]
      rw [made] at published
      simp only [runJobs, found, Logged.log_bind, ended, published, turnOf, advance, made, Turn.log]

theorem log_runJobs (state : Report × Context) (free : Unclaimed state.2 jobs) :
    (runJobs state.1 state.2 jobs).log = (turnsFrom state jobs).flatMap Turn.log := by
  induction jobs generalizing state with
  | nil => rfl
  | cons job rest ih =>
    have later := ih (advance state job) (free.record state.1)
    rw [log_runJobs_cons free, later, turnsFrom, List.flatMap_cons]

theorem log_run_of_plan (plan : Plan p c producers order) (made : p.schedule = .ok order) :
    (p.run c).log =
      opening (order.map Job.name) :: (turnsFrom (.empty, c) order).flatMap Turn.log := by
  have logged := log_runJobs (.empty, c) plan.unclaimed
  simp only [run, made, names_notices, plan.find?_taken, Logged.log_bind, logged]
  simp only [Logged.entry, opening, List.length_map, List.singleton_append]

theorem course_of_plan (plan : Plan p c producers order) (made : p.schedule = .ok order) :
    Course p c (finish c order).1 (finish c order).2 (p.run c).log
      (turnsFrom (.empty, c) order) where
  complete := names_turnsFrom ▸ plan.listed.names
  pipeline := by
    intro turn member
    obtain ⟨before, job, after, split, rfl⟩ := mem_turnsFrom member
    exact plan.listed.pipeline job (by simp [split])
  seen := fun _ _ _ split => seen_turnsFrom split
  fared := by
    intro turn member
    obtain ⟨before, job, after, _, rfl⟩ := mem_turnsFrom member
    exact job.fared _ _
  outcomes := outcomes_turnsFrom (by simpa using plan.listed.nodup_names)
  published := record_turnsFrom
  logged := by rw [names_turnsFrom, log_run_of_plan plan made]

end Program

end Tableflow
