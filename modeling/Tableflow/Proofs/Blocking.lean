import Tableflow.Proofs.Course
import Tableflow.Proofs.Replay

/-!
Blocked pipelines. A pipeline is blocked exactly if one of those it waits for, directly or through
others, has failed; all others have one turn, and they find their signals there.
-/

namespace Tableflow

def Outcome.isBlocked : Outcome → Bool
  | blocked _ _ => true
  | _ => false

namespace Program

open Schedule

/-- Among the names that a pipeline loads, `signal` is the first whose producer did not succeed. -/
def FirstUnmet (p : Program) (report : Report) (name signal producer : String) : Prop :=
  ∃ pipeline before after, p.pipelines.get? name = some pipeline ∧
    pipeline.inputs = before ++ signal :: after ∧
    p.Notifies producer signal ∧ report.hasSucceeded producer = false ∧
    ∀ earlier ∈ before, ∀ other, p.Notifies other earlier → report.hasSucceeded other = true

/-- From a pipeline to the one that blocks it, and so on, up to one that failed. -/
inductive Stems (report : Report) : (name origin : String) → Prop
  | failed {name e} : report.get? name = some (.failed e) → Stems report name name
  | blocked {name signal producer origin} : report.get? name = some (.blocked signal producer) →
      Stems report producer origin → Stems report name origin

/-- Exactly one of the turns is that of `name`, and it runs the pipeline where all signals that the
pipeline waits for are published. -/
def RanOnce (p : Program) (turns : List Turn) (name : String) : Prop :=
  ∃ before turn after, turns = before ++ turn :: after ∧ turn.name = name ∧
    (∀ other ∈ before ++ after, other.name ≠ name) ∧ turn.outcome.isBlocked = false ∧
    ∀ signal ∈ turn.pipeline.inputs, (∃ producer, p.Notifies producer signal) →
      ∃ table, turn.seen.signal? signal = some table

variable {p : Program} {c : Context} {producers : OrderedMap String} {order front back : List Job}
  {report : Report} {final : Context} {job : Job} {name signal producer origin : String}

/-! ### Who blocks -/

theorem needs_find?_of_blocked (made : (job.attempt report c).1 = .blocked signal producer) :
    job.needs.find? (fun need => !report.hasSucceeded need.producer) = some ⟨signal, producer⟩ := by
  unfold Job.attempt at made
  split at made
  · rename_i need found
    cases made
    exact found
  · split at made <;> cases made

theorem firstUnmet_of_blocked (listed : p.JobsOf producers order) (member : job ∈ order)
    (made : (job.attempt report c).1 = .blocked signal producer) :
    p.FirstUnmet report job.name signal producer := by
  have found := needs_find?_of_blocked made
  rw [listed.needs job member, dependenciesOf, List.find?_filterMap, Names.find?_distinct,
    Option.bind_eq_some_iff] at found
  obtain ⟨input, first, made⟩ := found
  obtain ⟨owner, registered, same⟩ := Option.map_eq_some_iff.mp made
  cases same
  obtain ⟨unmet, before, after, split, passed⟩ := List.find?_eq_some_iff_append.mp first
  refine ⟨job.pipeline, before, after, listed.pipeline job member, split,
    (listed.registered _ _).mp registered, by simpa [registered] using unmet, ?_⟩
  intro earlier here other notifies
  have known := (listed.registered _ _).mpr notifies
  simpa [known] using passed earlier here

theorem Settled.exists_turn (settled : Settled p c producers order report final) {outcome : Outcome}
    (reported : report.get? name = some outcome) :
    ∃ job ∈ order, job.name = name ∧ (job.attempt report final).1 = outcome := by
  have known := OrderedMap.mem_keys_of_get? reported
  rw [settled.names] at known
  obtain ⟨job, member, rfl⟩ := List.mem_map.mp known
  exact ⟨job, member, rfl, Option.some.inj ((settled.outcome job member).symm.trans reported)⟩

theorem Settled.firstUnmet (settled : Settled p c producers order report final)
    (blocked : report.get? name = some (.blocked signal producer)) :
    p.FirstUnmet report name signal producer := by
  obtain ⟨job, member, rfl, made⟩ := settled.exists_turn blocked
  exact firstUnmet_of_blocked settled.listed member made

theorem FirstUnmet.dependsOn (unmet : p.FirstUnmet report name signal producer) :
    p.DependsOn name producer := by
  obtain ⟨pipeline, before, after, defined, split, notifies, _⟩ := unmet
  exact ⟨pipeline, signal, defined, by simp [split], notifies⟩

/-! ### Failures and those that wait for them -/

theorem Settled.stems (settled : Settled p c producers order report final) :
    ∀ job ∈ order, report.hasSucceeded job.name = false → ∃ origin, Stems report job.name origin := by
  refine settled.sequenced.induction ?_
  intro job member ih unsuccessful
  have reported := settled.outcome job member
  rcases job.attempt_cases report final with
    ⟨need, waited, unmet, made⟩ | ⟨_, ⟨e, _, made⟩ | ⟨result, _, made⟩⟩
  · obtain ⟨other, there, named, _⟩ := settled.listed.exists_producer member waited
    obtain ⟨origin, stems⟩ := ih other there ⟨need, waited, named.symm⟩ (named ▸ unmet)
    rw [made] at reported
    exact ⟨origin, Stems.blocked reported (named ▸ stems)⟩
  · rw [made] at reported
    exact ⟨job.name, Stems.failed reported⟩
  · rw [settled.hasSucceeded_eq member, made] at unsuccessful
    cases unsuccessful

theorem Stems.exists_failure (stems : Stems report name origin) :
    ∃ e, report.get? origin = some (.failed e) := by
  induction stems with
  | failed reported => exact ⟨_, reported⟩
  | blocked _ _ ih => exact ih

theorem Settled.ancestor_of_stems (settled : Settled p c producers order report final)
    (stems : Stems report name origin) : Relation.ReflTransGen p.DependsOn name origin := by
  induction stems with
  | failed _ => exact Relation.ReflTransGen.refl
  | blocked reported _ ih => exact Relation.ReflTransGen.head (settled.firstUnmet reported).dependsOn ih

theorem Settled.stems_of_blocked (settled : Settled p c producers order report final)
    (blocked : report.get? name = some (.blocked signal producer)) :
    ∃ origin, Stems report producer origin := by
  obtain ⟨_, _, _, _, _, ⟨pipeline, defined, _⟩, unmet, _⟩ := settled.firstUnmet blocked
  obtain ⟨job, member, rfl, _⟩ := settled.listed.exists_job defined
  exact settled.stems job member unmet

theorem Settled.blocked_of_unmet (settled : Settled p c producers order report final)
    (edge : p.DependsOn name producer) (unmet : report.hasSucceeded producer = false) :
    ∃ signal blocker, report.get? name = some (.blocked signal blocker) := by
  obtain ⟨pipeline, _, defined, _⟩ := id edge
  obtain ⟨job, member, rfl, _⟩ := settled.listed.exists_job defined
  obtain ⟨need, waited, rfl⟩ := (settled.listed.dependsOn_iff member).mp edge
  rcases job.attempt_cases report final with ⟨first, _, _, made⟩ | ⟨met, _⟩
  · exact ⟨first.signal, first.producer, by rw [settled.outcome job member, made]⟩
  · cases (met need waited).symm.trans unmet

theorem Settled.blocked_of_ancestor (settled : Settled p c producers order report final)
    (path : Relation.TransGen p.DependsOn name origin) {e : PipelineError}
    (failed : report.get? origin = some (.failed e)) :
    ∃ signal producer, report.get? name = some (.blocked signal producer) := by
  induction path using Relation.TransGen.head_induction_on with
  | single edge => exact settled.blocked_of_unmet edge (hasSucceeded_of_reported failed)
  | head edge _ ih =>
    obtain ⟨_, _, blocked⟩ := ih
    exact settled.blocked_of_unmet edge (hasSucceeded_of_reported blocked)

/-! ### Those that run -/

/-- A pipeline that is run on its turn finds there what its producers have published. -/
theorem signal?_at_turn (plan : Plan p c producers order) (split : order = front ++ job :: back)
    (runs : (job.attempt (finish c front).1 (finish c front).2).1.isBlocked = false)
    (loaded : signal ∈ job.pipeline.inputs) (notifies : p.Notifies producer signal) :
    ∃ table, (finish c front).2.signal? signal = some table := by
  have settled := settled_of_plan plan
  have member : job ∈ order := by simp [split]
  have waited : (⟨signal, producer⟩ : Dependency) ∈ job.needs :=
    (plan.listed.mem_needs member).mpr ⟨loaded, notifies⟩
  obtain ⟨other, there, named, published⟩ := plan.listed.exists_producer member waited
  have success : (other.attempt (finish c order).1 (finish c order).2).1.isSuccess = true := by
    rw [attempt_at_turn plan split] at runs
    rcases job.attempt_cases (finish c order).1 (finish c order).2 with
      ⟨_, _, _, made⟩ | ⟨met, _⟩
    · rw [made] at runs
      cases runs
    · rw [← settled.hasSucceeded_eq there, named]
      exact met _ waited
  rw [← Job.names_attempt_of_success success] at published
  obtain ⟨⟨_, table⟩, noted, rfl⟩ := List.mem_map.mp published
  have earlier : other ∈ front := by
    obtain ⟨same, here, name⟩ := List.mem_map.mp
      ((isReady_iff.mp (plan.sequenced front job back split)).2 _ waited)
    have one := plan.listed.eq_of_name_eq (by simp [split, here]) there (name.trans named.symm)
    exact one ▸ here
  refine ⟨table, ?_⟩
  rw [Context.signal?, OrderedMap.get?_eq_some_iff, entries_finish plan split]
  exact List.mem_append_right _ (List.mem_flatMap.mpr ⟨other, earlier, noted⟩)

theorem ranOnce_of_plan (plan : Plan p c producers order) (made : p.schedule = .ok order)
    {outcome : Outcome} (reported : (finish c order).1.get? name = some outcome)
    (unblocked : outcome.isBlocked = false) : p.RanOnce (turnsFrom (.empty, c) order) name := by
  have course := course_of_plan plan made
  have entry := OrderedMap.get?_eq_some_iff.mp reported
  rw [course.outcomes] at entry
  obtain ⟨turn, member, same⟩ := List.mem_map.mp entry
  cases same
  obtain ⟨before, after, split⟩ := List.append_of_mem member
  refine ⟨before, turn, after, split, rfl, ?_, unblocked, ?_⟩
  · have distinct := course.complete.nodup_iff.mpr p.pipelines.nodup_keys
    rw [split, List.map_append, List.map_cons, List.nodup_middle, List.nodup_cons,
      ← List.map_append] at distinct
    exact fun other there same => distinct.1 (List.mem_map.mpr ⟨other, there, same⟩)
  · rintro signal loaded ⟨producer, notifies⟩
    obtain ⟨front, job, back, cut, rfl⟩ := mem_turnsFrom member
    exact signal?_at_turn plan cut unblocked loaded notifies

/-- In a run that is not refused, the blocked pipelines are those that wait for a failed one,
directly or through others. Each names its first input that is not published, and the way along the
blocked ends at a failed one. All other pipelines are run once, where their signals are present. -/
theorem blocked_iff_failed_ancestor {p : Program} {c final : Context} {report : Report}
    (ran : (p.run c).value = (.ok report, final)) :
    (∀ name, (∃ signal producer, report.get? name = some (.blocked signal producer)) ↔
      ∃ origin e, Relation.TransGen p.DependsOn name origin ∧
        report.get? origin = some (.failed e)) ∧
    (∀ name signal producer, report.get? name = some (.blocked signal producer) →
      p.FirstUnmet report name signal producer ∧ ∃ origin, Stems report producer origin) ∧
    ∃ turns, Course p c report final (p.run c).log turns ∧
      ∀ name outcome, report.get? name = some outcome → outcome.isBlocked = false →
        p.RanOnce turns name := by
  obtain ⟨producers, order, made, finished, settled⟩ := finished_of_run ran
  have course := course_of_plan settled.toPlan made
  have once : ∀ name outcome, (finish c order).1.get? name = some outcome →
      outcome.isBlocked = false → p.RanOnce (turnsFrom (.empty, c) order) name :=
    fun _ _ => ranOnce_of_plan settled.toPlan made
  rw [finished] at course once
  refine ⟨?_, ?_, _, course, once⟩
  · intro name
    constructor
    · rintro ⟨signal, producer, blocked⟩
      obtain ⟨origin, stems⟩ := settled.stems_of_blocked blocked
      obtain ⟨e, failed⟩ := stems.exists_failure
      have edge := (settled.firstUnmet blocked).dependsOn
      exact ⟨origin, e, Relation.TransGen.head' edge (settled.ancestor_of_stems stems), failed⟩
    · rintro ⟨origin, e, path, failed⟩
      exact settled.blocked_of_ancestor path failed
  · intro name signal producer blocked
    exact ⟨settled.firstUnmet blocked, settled.stems_of_blocked blocked⟩

/-- A failure two steps away from a pipeline that also waits for one that succeeds. -/
def cascade : Program :=
  ⟨.ofList [("last", ⟨[.join "kept" "item" "second" "item"]⟩),
    ("middle", ⟨[.read "first", .notify "second"]⟩),
    ("lose", ⟨[.read "nowhere", .notify "first"]⟩), ("keep", ⟨[.read "orders", .notify "kept"]⟩)]⟩

theorem blocked_iff_failed_cascade :
    ∃ report final, (cascade.run shelf).value = (.ok report, final) ∧
      report.get? "last" = some (.blocked "second" "middle") ∧
      (∃ origin e, Relation.TransGen cascade.DependsOn "last" origin ∧
        report.get? origin = some (.failed e)) ∧
      cascade.FirstUnmet report "last" "second" "middle" ∧
      ∃ turns, Course cascade shelf report final (cascade.run shelf).log turns ∧
        cascade.RanOnce turns "keep" := by
  refine ⟨_, _, rfl, rfl, ?_⟩
  obtain ⟨blocked, first, turns, course, once⟩ :=
    blocked_iff_failed_ancestor (p := cascade) (c := shelf) rfl
  exact ⟨(blocked "last").mp ⟨_, _, rfl⟩, (first "last" _ _ rfl).1, turns, course,
    once "keep" _ rfl rfl⟩

end Program

end Tableflow
