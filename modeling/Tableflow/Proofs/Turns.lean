import Mathlib.Data.List.Find
import Tableflow.Program.Run
import Tableflow.Proofs.Reading
import Tableflow.Proofs.RunOrder

/-!
A run as a sequence of turns. Each turn leaves an outcome and the tables it publishes; as long as no
signal is claimed twice, `runJobs` is the repetition of `advance`, which cannot fail.
-/

namespace Tableflow

/-! ### Publishing -/

namespace Context

/-- The context with the tables published one after the other. -/
def record (c : Context) (tables : List (String × Table)) : Context :=
  { c with signals := tables.foldl (fun signals entry => signals.insert entry.1 entry.2) c.signals }

theorem signal?_record_of_absent {c : Context} {tables : List (String × Table)} {name : String}
    (absent : name ∉ tables.map Prod.fst) : (c.record tables).signal? name = c.signal? name := by
  induction tables generalizing c with
  | nil => rfl
  | cons entry rest ih =>
    rw [List.map_cons, List.mem_cons, not_or] at absent
    have later := ih (c := c.record [entry]) absent.2
    have here : (c.record [entry]).signal? name = c.signal? name := by
      show (c.signals.insert entry.1 entry.2).get? name = c.signals.get? name
      rw [OrderedMap.get?_insert, if_neg absent.1]
    exact later.trans here

theorem entries_record {c : Context} {tables : List (String × Table)}
    (fresh : (c.signals.keys ++ tables.map Prod.fst).Nodup) :
    (c.record tables).signals.entries = c.signals.entries ++ tables := by
  induction tables generalizing c with
  | nil => exact (List.append_nil _).symm
  | cons entry rest ih =>
    have absent : entry.1 ∉ c.signals.keys := fun here =>
      (List.nodup_append.mp fresh).2.2 _ here _ (by simp) rfl
    have grown : (c.record [entry]).signals.entries = c.signals.entries ++ [entry] :=
      OrderedMap.entries_insert_of_fresh entry.2 absent
    have onward : ((c.record [entry]).signals.keys ++ rest.map Prod.fst).Nodup := by
      simpa [OrderedMap.keys, grown] using fresh
    have later := ih onward
    rw [grown, List.append_assoc, List.singleton_append] at later
    exact later

theorem keys_record {c : Context} {tables : List (String × Table)}
    (fresh : (c.signals.keys ++ tables.map Prod.fst).Nodup) :
    (c.record tables).signals.keys = c.signals.keys ++ tables.map Prod.fst := by
  simp only [OrderedMap.keys, entries_record fresh, List.map_append]

end Context

namespace Program

theorem publishAll_eq_record {c : Context} {tables : List (String × Table)}
    (fresh : (c.signals.keys ++ tables.map Prod.fst).Nodup) :
    publishAll c tables = (.ok (), c.record tables) := by
  induction tables generalizing c with
  | nil => rfl
  | cons entry rest ih =>
    obtain ⟨signal, table⟩ := entry
    have absent : signal ∉ c.signals.keys := fun here =>
      (List.nodup_append.mp fresh).2.2 _ here _ (by simp) rfl
    have free : c.publish? signal table = some (c.record [(signal, table)]) := by
      have untaken : c.signals.contains signal = false := by
        rw [OrderedMap.contains, OrderedMap.get?_eq_none_iff.mpr absent]
        rfl
      rw [Context.publish?, untaken]
      rfl
    have once : (c.signals.keys ++ [(signal, table)].map Prod.fst).Nodup :=
      fresh.sublist (List.Sublist.append_left (by simp) _)
    rw [publishAll, free]
    apply ih
    rw [Context.keys_record once]
    simpa using fresh

end Program

/-! ### One turn -/

namespace Job

/-- What comes of a job on its turn: the outcome, and the tables that are published. -/
def attempt (job : Job) (report : Report) (c : Context) : Outcome × List (String × Table) :=
  match job.needs.find? fun need => !report.hasSucceeded need.producer with
  | some need => (.blocked need.signal need.producer, [])
  | none =>
    match (job.pipeline.run c).value with
    | .ok result => (.succeeded result.table, result.notifications)
    | .error e => (.failed e, [])

variable {job : Job} {report : Report} {c : Context}

theorem attempt_cases (job : Job) (report : Report) (c : Context) :
    (∃ need ∈ job.needs, report.hasSucceeded need.producer = false ∧
      job.attempt report c = (.blocked need.signal need.producer, [])) ∨
    ((∀ need ∈ job.needs, report.hasSucceeded need.producer = true) ∧
      ((∃ e, (job.pipeline.run c).value = .error e ∧ job.attempt report c = (.failed e, [])) ∨
        ∃ result, (job.pipeline.run c).value = .ok result ∧
          job.attempt report c = (.succeeded result.table, result.notifications))) := by
  cases found : job.needs.find? fun need => !report.hasSucceeded need.producer with
  | some need =>
    have unmet := List.find?_some found
    exact Or.inl ⟨need, List.mem_of_find?_eq_some found, by simpa using unmet,
      by rw [attempt, found]⟩
  | none =>
    have met : ∀ need ∈ job.needs, report.hasSucceeded need.producer = true := by
      intro need waited
      simpa using List.find?_eq_none.mp found need waited
    refine Or.inr ⟨met, ?_⟩
    cases ran : (job.pipeline.run c).value with
    | error e => exact Or.inl ⟨e, rfl, by rw [attempt, found, ran]⟩
    | ok result => exact Or.inr ⟨result, rfl, by rw [attempt, found, ran]⟩

theorem names_attempt_sublist (job : Job) (report : Report) (c : Context) :
    ((job.attempt report c).2.map Prod.fst).Sublist job.pipeline.signals := by
  rcases attempt_cases job report c with
    ⟨_, _, _, made⟩ | ⟨_, ⟨_, _, made⟩ | ⟨result, ran, made⟩⟩
  · simp [made]
  · simp [made]
  · rw [made, Pipeline.names_of_run ran]

theorem names_attempt_of_success (success : (job.attempt report c).1.isSuccess = true) :
    (job.attempt report c).2.map Prod.fst = job.pipeline.signals := by
  rcases attempt_cases job report c with
    ⟨_, _, _, made⟩ | ⟨_, ⟨_, _, made⟩ | ⟨result, ran, made⟩⟩
  · simp [made, Outcome.isSuccess] at success
  · simp [made, Outcome.isSuccess] at success
  · rw [made, Pipeline.names_of_run ran]

theorem isSuccess_of_mem_attempt {signal : String} {table : Table}
    (published : (signal, table) ∈ (job.attempt report c).2) :
    (job.attempt report c).1.isSuccess = true := by
  rcases attempt_cases job report c with
    ⟨_, _, _, made⟩ | ⟨_, ⟨_, _, made⟩ | ⟨result, _, made⟩⟩
  · simp [made] at published
  · simp [made] at published
  · rw [made]
    rfl

/-- A turn depends on who of the needed has succeeded and, if all have, on the tables loaded. -/
theorem attempt_congr {report' : Report} {c' : Context}
    (producers : ∀ need ∈ job.needs,
      report.hasSucceeded need.producer = report'.hasSucceeded need.producer)
    (inputs : (∀ need ∈ job.needs, report.hasSucceeded need.producer = true) →
      ∀ name ∈ job.pipeline.inputs, c.lookup? name = c'.lookup? name) :
    job.attempt report c = job.attempt report' c' := by
  have same : job.needs.find? (fun need => !report.hasSucceeded need.producer) =
      job.needs.find? (fun need => !report'.hasSucceeded need.producer) := by
    apply List.find?_congr
    intro need waited
    rw [producers need waited]
  cases found : job.needs.find? fun need => !report.hasSucceeded need.producer with
  | some need => rw [attempt, attempt, ← same, found]
  | none =>
    have met : ∀ need ∈ job.needs, report.hasSucceeded need.producer = true := by
      intro need waited
      simpa using List.find?_eq_none.mp found need waited
    rw [attempt, attempt, ← same, found, Pipeline.run_congr (inputs met)]

end Job

/-! ### All turns -/

namespace Program

/-- The state of a run after one more turn. -/
def advance (state : Report × Context) (job : Job) : Report × Context :=
  (state.1.insert job.name (job.attempt state.1 state.2).1,
    state.2.record (job.attempt state.1 state.2).2)

/-- The signals of the jobs are taken neither by the context nor by each other. -/
def Unclaimed (c : Context) (jobs : List Job) : Prop :=
  (c.signals.keys ++ jobs.flatMap fun job => job.pipeline.signals).Nodup

variable {c : Context} {job : Job} {jobs rest : List Job} {name : String}

theorem Unclaimed.fresh (free : Unclaimed c (job :: rest)) (report : Report) :
    (c.signals.keys ++ (job.attempt report c).2.map Prod.fst).Nodup := by
  refine List.Nodup.sublist ?_ free
  rw [List.flatMap_cons]
  exact ((Job.names_attempt_sublist _ _ _).trans (List.sublist_append_left _ _)).append_left _

theorem Unclaimed.record (free : Unclaimed c (job :: rest)) (report : Report) :
    Unclaimed (c.record (job.attempt report c).2) rest := by
  rw [Unclaimed, Context.keys_record (free.fresh report), List.append_assoc]
  refine List.Nodup.sublist ?_ free
  rw [List.flatMap_cons]
  exact ((Job.names_attempt_sublist _ _ _).append_right _).append_left _

theorem runJobs_cons (report : Report) (c : Context) (job : Job) (rest : List Job) :
    (runJobs report c (job :: rest)).value =
      match publishAll c (job.attempt report c).2 with
      | (.ok (), next) =>
        (runJobs (report.insert job.name (job.attempt report c).1) next rest).value
      | (.error e, next) => (.error e, next) := by
  rw [runJobs, Job.attempt]
  cases job.needs.find? fun need => !report.hasSucceeded need.producer with
  | some need => rfl
  | none =>
    simp only [Logged.value_bind]
    cases (job.pipeline.run c).value with
    | error e => rfl
    | ok result =>
      dsimp only
      generalize publishAll c result.notifications = outcome
      obtain ⟨_ | _, next⟩ := outcome <;> rfl

/-- Where no signal is claimed twice, no turn can stop the run. -/
theorem runJobs_eq_foldl (free : Unclaimed c jobs) (report : Report) :
    (runJobs report c jobs).value =
      (.ok (jobs.foldl advance (report, c)).1, (jobs.foldl advance (report, c)).2) := by
  induction jobs generalizing report c with
  | nil => rfl
  | cons job rest ih =>
    rw [runJobs_cons, publishAll_eq_record (free.fresh report)]
    exact ih (free.record report) _

/-! ### What turns leave alone -/

variable {state : Report × Context}

theorem sources_foldl : (jobs.foldl advance state).2.sources = state.2.sources := by
  induction jobs generalizing state with
  | nil => rfl
  | cons job rest ih => exact ih

theorem get?_foldl_of_absent (absent : name ∉ jobs.map Job.name) :
    (jobs.foldl advance state).1.get? name = state.1.get? name := by
  induction jobs generalizing state with
  | nil => rfl
  | cons job rest ih =>
    rw [List.map_cons, List.mem_cons, not_or] at absent
    rw [List.foldl_cons, ih absent.2, advance, OrderedMap.get?_insert, if_neg absent.1]

theorem signal?_foldl_of_absent (absent : ∀ job ∈ jobs, name ∉ job.pipeline.signals) :
    (jobs.foldl advance state).2.signal? name = state.2.signal? name := by
  induction jobs generalizing state with
  | nil => rfl
  | cons job rest ih =>
    have unpublished : name ∉ (job.attempt state.1 state.2).2.map Prod.fst := fun here =>
      absent job List.mem_cons_self ((Job.names_attempt_sublist _ _ _).subset here)
    rw [List.foldl_cons, ih fun other member => absent other (List.mem_cons_of_mem _ member)]
    exact Context.signal?_record_of_absent unpublished

theorem lookup?_foldl_of_absent (absent : ∀ job ∈ jobs, name ∉ job.pipeline.signals) :
    (jobs.foldl advance state).2.lookup? name = state.2.lookup? name := by
  have signal : (jobs.foldl advance state).2.signal? name = state.2.signal? name :=
    signal?_foldl_of_absent absent
  unfold Context.signal? at signal
  rw [Context.lookup?, Context.lookup?, signal, sources_foldl]

theorem keys_foldl (distinct : (state.1.keys ++ jobs.map Job.name).Nodup) :
    (jobs.foldl advance state).1.keys = state.1.keys ++ jobs.map Job.name := by
  induction jobs generalizing state with
  | nil => exact (List.append_nil _).symm
  | cons job rest ih =>
    have absent : job.name ∉ state.1.keys := fun here =>
      (List.nodup_append.mp distinct).2.2 _ here _ (by simp) rfl
    have grown : (advance state job).1.keys = state.1.keys ++ [job.name] := by
      rw [advance, OrderedMap.keys_insert, if_neg absent]
    rw [List.foldl_cons, ih (by simpa [grown] using distinct), grown]
    simp

end Program

end Tableflow
