import Tableflow.Proofs.Turns

/-!
How a run ends. The four ends of a run are told apart by the program and the context alone, and a
run that is not refused settles every job at once: each outcome is what the job's turn would give
against the final state, and the registry holds what these turns publish.
-/

namespace Tableflow.Program

open Schedule

variable {p : Program} {c : Context} {producers : OrderedMap String} {order before after : List Job}
  {job : Job}

/-- An order of jobs in which nothing can stop a run that starts from `c`. -/
structure Plan (p : Program) (c : Context) (producers : OrderedMap String) (order : List Job) :
    Prop where
  listed : p.JobsOf producers order
  sequenced : Sequenced order
  unique : p.signals.Nodup
  untaken : ∀ signal ∈ p.signals, c.signal? signal = none

/-- The report and the context after the jobs have had their turns. -/
def finish (c : Context) (order : List Job) : Report × Context := order.foldl advance (.empty, c)

theorem Plan.unclaimed (plan : Plan p c producers order) : Unclaimed c order := by
  rw [Unclaimed, List.nodup_append]
  refine ⟨c.signals.nodup_keys, plan.listed.signals.nodup_iff.mpr plan.unique, ?_⟩
  intro signal taken other published same
  have free := plan.untaken other (plan.listed.signals.mem_iff.mp published)
  exact OrderedMap.get?_eq_none_iff.mp free (same ▸ taken)

/-! ### Four ends -/

/-- The first signal of the program, by definition and stage, that the context already holds. -/
def FirstTaken (p : Program) (c : Context) (signal : String) : Prop :=
  ∃ before after, p.signals = before ++ signal :: after ∧
    (∀ earlier ∈ before, c.signal? earlier = none) ∧ ∃ table, c.signal? signal = some table

theorem firstTaken_of_found {signal : String}
    (found : p.signals.find? (fun signal => (c.signal? signal).isSome) = some signal) :
    p.FirstTaken c signal := by
  obtain ⟨taken, before, after, split, untaken⟩ := List.find?_eq_some_iff_append.mp found
  refine ⟨before, after, split, ?_, Option.isSome_iff_exists.mp taken⟩
  intro earlier member
  simpa using untaken earlier member

theorem run_of_repeat (repeated : ¬ p.signals.Nodup) :
    ∃ signal first second, p.Repeats signal first second ∧
      (p.run c).value = (.error (.duplicateSignal signal first second), c) := by
  obtain ⟨signal, first, second, repeats, refused⟩ := producers_of_repeat repeated
  refine ⟨signal, first, second, repeats, ?_⟩
  have unscheduled : p.schedule = .error (.duplicateSignal signal first second) := by
    rw [schedule, jobs, refused]
    rfl
  rw [run, unscheduled]
  rfl

theorem run_of_taken {signal : String} (made : p.schedule = .ok order)
    (found : p.signals.find? (fun signal => (c.signal? signal).isSome) = some signal) :
    (p.run c).value = (.error (.alreadyPublished signal), c) := by
  rw [run, made, names_notices]
  simp only [found]
  rfl

theorem Plan.find?_taken (plan : Plan p c producers order) :
    p.signals.find? (fun signal => (c.signal? signal).isSome) = none := by
  apply List.find?_eq_none.mpr
  intro signal published
  simp [plan.untaken signal published]

theorem run_of_plan (plan : Plan p c producers order) (made : p.schedule = .ok order) :
    (p.run c).value = (.ok (finish c order).1, (finish c order).2) := by
  rw [run, made, names_notices]
  simp only [plan.find?_taken, Logged.value_bind]
  exact runJobs_eq_foldl plan.unclaimed .empty

/-- A run is refused for a repeated signal, a circle or a taken signal, in this order, or it carries
out a plan. -/
theorem run_cases (p : Program) (c : Context) :
    (¬ p.signals.Nodup ∧ ∃ signal first second, p.Repeats signal first second ∧
      (p.run c).value = (.error (.duplicateSignal signal first second), c)) ∨
    (p.signals.Nodup ∧ ¬ p.Acyclic ∧ ∃ path, (p.run c).value = (.error (.cycle path), c)) ∨
    (p.signals.Nodup ∧ p.Acyclic ∧ ∃ signal, p.FirstTaken c signal ∧
      (p.run c).value = (.error (.alreadyPublished signal), c)) ∨
    (p.Acyclic ∧ ∃ producers order, p.schedule = .ok order ∧ Plan p c producers order ∧
      (p.run c).value = (.ok (finish c order).1, (finish c order).2)) := by
  by_cases unique : p.signals.Nodup
  · obtain ⟨producers, jobs, _, listed, possible | circular⟩ := schedule_cases unique
    · obtain ⟨acyclic, order, made, greedy, perm⟩ := possible
      cases found : p.signals.find? fun signal => (c.signal? signal).isSome with
      | some signal =>
        exact Or.inr (Or.inr (Or.inl
          ⟨unique, acyclic, signal, firstTaken_of_found found, run_of_taken made found⟩))
      | none =>
        have untaken : ∀ signal ∈ p.signals, c.signal? signal = none := by
          intro signal published
          simpa using List.find?_eq_none.mp found signal published
        have plan : Plan p c producers order :=
          ⟨listed.perm perm, greedy.sequenced, unique, untaken⟩
        exact Or.inr (Or.inr (Or.inr
          ⟨acyclic, producers, order, made, plan, run_of_plan plan made⟩))
    · obtain ⟨cyclic, path, refused⟩ := circular
      exact Or.inr (Or.inl ⟨unique, cyclic, path, by rw [run, refused]; rfl⟩)
  · exact Or.inl ⟨unique, run_of_repeat unique⟩

/-! ### Turns against the final state -/

theorem hasSucceeded_congr {report report' : Report} {name : String}
    (same : report.get? name = report'.get? name) :
    report.hasSucceeded name = report'.hasSucceeded name := by
  rw [Report.hasSucceeded, Report.hasSucceeded, same]

/-- When a job comes up, all that decides its turn is final. -/
theorem attempt_at_turn (plan : Plan p c producers order) (split : order = before ++ job :: after) :
    job.attempt (finish c before).1 (finish c before).2 =
      job.attempt (finish c order).1 (finish c order).2 := by
  have member : job ∈ order := by simp [split]
  have met := (isReady_iff.mp (plan.sequenced before job after split)).2
  have later : finish c order = (job :: after).foldl advance (finish c before) := by
    rw [finish, split, List.foldl_append]
    rfl
  rw [later]
  apply Job.attempt_congr
  · intro need waited
    -- the producer has had its turn, and no job comes up twice
    have absent := plan.listed.absent_of_split split (met need waited)
    exact hasSucceeded_congr (get?_foldl_of_absent absent).symm
  · intro _ name loaded
    -- whoever publishes the name is a producer of this job, so it is not among those to come
    have absent : ∀ other ∈ job :: after, name ∉ other.pipeline.signals := by
      intro other coming published
      have there : other ∈ order := by
        rw [split]
        exact List.mem_append_right _ coming
      have waited : (⟨name, other.name⟩ : Dependency) ∈ job.needs :=
        (plan.listed.mem_needs member).mpr
          ⟨loaded, other.pipeline, plan.listed.pipeline other there, published⟩
      exact plan.listed.absent_of_split split (met _ waited) (List.mem_map_of_mem coming)
    exact (lookup?_foldl_of_absent absent).symm

theorem entries_foldl {jobs : List Job} {start : Report × Context} (free : Unclaimed start.2 jobs)
    {notes : Job → List (String × Table)}
    (noted : ∀ before job after, jobs = before ++ job :: after →
      (job.attempt (before.foldl advance start).1 (before.foldl advance start).2).2 = notes job) :
    (jobs.foldl advance start).2.signals.entries =
      start.2.signals.entries ++ jobs.flatMap notes := by
  induction jobs generalizing start with
  | nil => simp
  | cons job rest ih =>
    have here : (job.attempt start.1 start.2).2 = notes job := noted [] job rest rfl
    have grown : (advance start job).2.signals.entries = start.2.signals.entries ++ notes job :=
      here ▸ Context.entries_record (free.fresh start.1)
    rw [List.foldl_cons, ih (free.record start.1), grown, List.flatMap_cons, List.append_assoc]
    intro before other after split
    exact noted (job :: before) other after (by rw [split]; rfl)

theorem entries_finish (plan : Plan p c producers order) (split : order = before ++ after) :
    (finish c before).2.signals.entries = c.signals.entries ++
      before.flatMap fun job => (job.attempt (finish c order).1 (finish c order).2).2 := by
  have free : Unclaimed c before := by
    refine List.Nodup.sublist ?_ plan.unclaimed
    rw [split, List.flatMap_append]
    exact (List.sublist_append_left _ _).append_left _
  apply entries_foldl free
  intro front job back cut
  have whole : order = front ++ job :: (back ++ after) := by
    rw [split, cut, List.append_assoc, List.cons_append]
  exact congrArg Prod.snd (attempt_at_turn plan whole)

/-! ### The settled state -/

/-- The end of a run: a report and a context against which every job's turn gives the outcome that
is reported and the tables that are published. -/
structure Settled (p : Program) (c : Context) (producers : OrderedMap String) (order : List Job)
    (report : Report) (final : Context) : Prop extends Plan p c producers order where
  names : report.keys = order.map Job.name
  sources : final.sources = c.sources
  outcome : ∀ job ∈ order, report.get? job.name = some (job.attempt report final).1
  registry : final.signals.entries =
    c.signals.entries ++ order.flatMap fun job => (job.attempt report final).2

theorem settled_of_plan (plan : Plan p c producers order) :
    Settled p c producers order (finish c order).1 (finish c order).2 where
  toPlan := plan
  names := keys_foldl (by simpa using plan.listed.nodup_names)
  sources := sources_foldl
  outcome := by
    intro job member
    obtain ⟨before, after, split⟩ := List.append_of_mem member
    have split' : order = (before ++ [job]) ++ after := by simp [split]
    have absent : job.name ∉ after.map Job.name := plan.listed.absent_of_split split' (by simp)
    rw [← attempt_at_turn plan split]
    rw [finish, split, List.foldl_append, List.foldl_cons, get?_foldl_of_absent absent, advance,
      OrderedMap.get?_insert, if_pos rfl]
    rfl
  registry := entries_finish plan (List.append_nil order).symm

theorem finished_of_run {report : Report} {final : Context}
    (ran : (p.run c).value = (.ok report, final)) :
    ∃ producers order, p.schedule = .ok order ∧ finish c order = (report, final) ∧
      Settled p c producers order report final := by
  rcases run_cases p c with ⟨_, _, _, _, _, refused⟩ | ⟨_, _, _, refused⟩ | ⟨_, _, _, _, refused⟩ |
    ⟨_, producers, order, made, plan, finished⟩
  · cases refused.symm.trans ran
  · cases refused.symm.trans ran
  · cases refused.symm.trans ran
  · cases finished.symm.trans ran
    exact ⟨producers, order, made, rfl, settled_of_plan plan⟩

theorem settled_of_run {report : Report} {final : Context}
    (ran : (p.run c).value = (.ok report, final)) :
    ∃ producers order, Settled p c producers order report final := by
  obtain ⟨producers, order, _, _, settled⟩ := finished_of_run ran
  exact ⟨producers, order, settled⟩

/-! ### Signals of the settled state -/

theorem hasSucceeded_of_reported {report : Report} {name : String} {outcome : Outcome}
    (reported : report.get? name = some outcome) :
    report.hasSucceeded name = outcome.isSuccess := by
  rw [Report.hasSucceeded, reported]

namespace Settled

variable {report : Report} {final : Context} {signal : String} {table : Table}

theorem hasSucceeded_eq (settled : Settled p c producers order report final)
    (member : job ∈ order) :
    report.hasSucceeded job.name = (job.attempt report final).1.isSuccess :=
  hasSucceeded_of_reported (settled.outcome job member)

theorem notifies (settled : Settled p c producers order report final) (member : job ∈ order)
    (published : (signal, table) ∈ (job.attempt report final).2) : p.Notifies job.name signal := by
  have named := List.mem_map_of_mem (f := Prod.fst) published
  exact ⟨job.pipeline, settled.listed.pipeline job member,
    (job.names_attempt_sublist report final).subset named⟩

theorem signal?_of_published (settled : Settled p c producers order report final)
    (member : job ∈ order) (published : (signal, table) ∈ (job.attempt report final).2) :
    final.signal? signal = some table := by
  rw [Context.signal?, OrderedMap.get?_eq_some_iff, settled.registry]
  exact List.mem_append_right _ (List.mem_flatMap.mpr ⟨job, member, published⟩)

theorem origin_of_signal? (settled : Settled p c producers order report final)
    (found : final.signal? signal = some table) :
    c.signal? signal = some table ∨
      ∃ job ∈ order, (signal, table) ∈ (job.attempt report final).2 := by
  rw [Context.signal?, OrderedMap.get?_eq_some_iff, settled.registry, List.mem_append,
    List.mem_flatMap] at found
  rcases found with old | new
  · exact Or.inl (OrderedMap.get?_eq_some_iff.mpr old)
  · exact Or.inr new

theorem signal?_of_unsuccessful (settled : Settled p c producers order report final)
    (member : job ∈ order) (published : signal ∈ job.pipeline.signals)
    (unsuccessful : (job.attempt report final).1.isSuccess = false) :
    final.signal? signal = none := by
  have owner : p.Notifies job.name signal :=
    ⟨job.pipeline, settled.listed.pipeline job member, published⟩
  apply Option.eq_none_iff_forall_ne_some.mpr
  intro table found
  -- the signal was free at the start, and its only producer publishes nothing
  rcases settled.origin_of_signal? found with old | ⟨other, there, noted⟩
  · have free := settled.untaken signal (mem_signals.mpr ⟨job.name, owner⟩)
    cases old.symm.trans free
  · have same := settled.listed.producer_unique owner (settled.notifies there noted)
    obtain rfl := settled.listed.eq_of_name_eq member there same
    have success := Job.isSuccess_of_mem_attempt noted
    cases success.symm.trans unsuccessful

/-- Names that no pipeline publishes mean what they meant before. -/
theorem lookup?_of_external (settled : Settled p c producers order report final) {name : String}
    (external : ∀ producer, ¬ p.Notifies producer name) : final.lookup? name = c.lookup? name := by
  have same : final.signal? name = c.signal? name := by
    apply Option.ext
    intro table
    constructor
    · intro found
      rcases settled.origin_of_signal? found with old | ⟨job, member, noted⟩
      · exact old
      · exact absurd (settled.notifies member noted) (external job.name)
    · intro old
      rw [Context.signal?, OrderedMap.get?_eq_some_iff] at old ⊢
      rw [settled.registry]
      exact List.mem_append_left _ old
  unfold Context.signal? at same
  rw [Context.lookup?, Context.lookup?, same, settled.sources]

end Settled

end Tableflow.Program
