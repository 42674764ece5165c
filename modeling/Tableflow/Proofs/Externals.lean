import Tableflow.Proofs.Ancestry

/-!
Tables from outside. A run depends on its start context only through the names that some pipeline
loads and none publishes; a source that hides behind a signal of the program is never read, also
where the signal never comes.
-/

namespace Tableflow.Program

/-- A name that some pipeline loads and none publishes. -/
def External (p : Program) (name : String) : Prop :=
  (∃ consumer pipeline, p.pipelines.get? consumer = some pipeline ∧ name ∈ pipeline.inputs) ∧
    ∀ producer, ¬ p.Notifies producer name

variable {p : Program} {c d : Context} {producers producers' : OrderedMap String}
  {order : List Job} {report report' : Report} {final final' : Context}

theorem attempt_eq_of_externals (settled : Settled p c producers order report final)
    (settled' : Settled p d producers' order report' final')
    (same : ∀ name, p.External name → c.lookup? name = d.lookup? name) {job : Job}
    (member : job ∈ order) : job.attempt report final = job.attempt report' final' := by
  have present : ∀ job ∈ order, True → job ∈ order := fun _ here _ => here
  refine attempt_eq_of_shared settled settled' present (fun _ _ _ _ _ _ => trivial) ?_ job member
    trivial
  intro job here _ name loaded unpublished
  exact same name ⟨⟨job.name, job.pipeline, settled.listed.pipeline job here, loaded⟩, unpublished⟩

theorem report_eq_of_externals (settled : Settled p c producers order report final)
    (settled' : Settled p d producers' order report' final')
    (same : ∀ name, p.External name → c.lookup? name = d.lookup? name) : report = report' := by
  apply OrderedMap.eq_of_get? (settled.names.trans settled'.names.symm)
  intro name known
  rw [settled.names] at known
  obtain ⟨job, member, rfl⟩ := List.mem_map.mp known
  rw [settled.outcome job member, settled'.outcome job member,
    attempt_eq_of_externals settled settled' same member]

theorem signals_eq_of_externals (settled : Settled p c producers order report final)
    (settled' : Settled p d producers' order report' final') (old : c.signals = d.signals)
    (same : ∀ name, p.External name → c.lookup? name = d.lookup? name) :
    final.signals = final'.signals := by
  apply OrderedMap.eq_of_entries
  rw [settled.registry, settled'.registry, old]
  congr 1
  apply List.flatMap_congr
  intro job member
  rw [attempt_eq_of_externals settled settled' same member]

/-- Sources can be exchanged without stopping a run, since only signals are in its way. -/
theorem Plan.exchange (plan : Plan p c producers order) (sources : OrderedMap Table) :
    Plan p { c with sources := sources } producers order :=
  ⟨plan.listed, plan.sequenced, plan.unique, plan.untaken⟩

/-- Two runs of a program give the same report if they find the same tables under its external
names. So sources can be added, replaced and removed under all other names, and the program runs as
before. -/
theorem report_depends_on_externals (p : Program) :
    (∀ c d report report' final final', (p.run c).value = (.ok report, final) →
      (p.run d).value = (.ok report', final') →
      (∀ name, p.External name → c.lookup? name = d.lookup? name) → report = report') ∧
    ∀ c report final sources, (p.run c).value = (.ok report, final) →
      (∀ name, p.External name → c.sources.get? name = sources.get? name) →
      ∃ final', (p.run { c with sources := sources }).value = (.ok report, final') ∧
        final'.signals = final.signals := by
  constructor
  · intro c d report report' final final' ran ran' same
    obtain ⟨producers, order, made, _, settled⟩ := finished_of_run ran
    obtain ⟨producers', order', made', _, settled'⟩ := finished_of_run ran'
    obtain rfl := Except.ok.inj (made.symm.trans made')
    exact report_eq_of_externals settled settled' same
  · intro c report final sources ran same
    obtain ⟨producers, order, made, _, settled⟩ := finished_of_run ran
    have plan := settled.toPlan.exchange sources
    have lookups : ∀ name, p.External name →
        c.lookup? name = ({ c with sources := sources } : Context).lookup? name := by
      intro name external
      rw [Context.lookup?, Context.lookup?, same name external]
    refine ⟨_, ?_, (signals_eq_of_externals settled (settled_of_plan plan) rfl lookups).symm⟩
    rw [run_of_plan plan made, report_eq_of_externals settled (settled_of_plan plan) lookups]

/-- The sources of `shelf`, and others under the names of two signals. -/
def crowded : OrderedMap Table :=
  ((shelf.sources.insert "lost" .empty).insert "kept" .empty).insert "spare" .empty

/-- These sources beside a signal that no pipeline publishes. -/
def busy : Context := ⟨crowded, .ofList [("rest", .empty)]⟩

theorem externals_mixed {name : String} (external : mixed.External name) :
    name = "nowhere" ∨ name = "orders" := by
  obtain ⟨⟨consumer, pipeline, defined, loaded⟩, unpublished⟩ := external
  have known : name ∈ mixed.pipelines.values.flatMap Pipeline.inputs :=
    List.mem_flatMap.mpr ⟨pipeline,
      List.mem_map.mpr ⟨_, OrderedMap.get?_eq_some_iff.mp defined, rfl⟩, loaded⟩
  have names : mixed.pipelines.values.flatMap Pipeline.inputs =
      ["lost", "kept", "nowhere", "orders"] := rfl
  simp only [names, List.mem_cons, List.not_mem_nil, or_false] at known
  rcases known with rfl | rfl | outside
  · exact absurd ⟨_, rfl, by decide⟩ (unpublished "lose")
  · exact absurd ⟨_, rfl, by decide⟩ (unpublished "keep")
  · exact outside

theorem report_depends_on_externals_mixed :
    ∃ report report' final final' final'', (mixed.run shelf).value = (.ok report, final) ∧
      (∀ name, mixed.External name → shelf.sources.get? name = crowded.get? name) ∧
      (mixed.run { shelf with sources := crowded }).value = (.ok report, final') ∧
      (mixed.run busy).value = (.ok report', final'') ∧ report = report' ∧
      report.get? "search" = some (.blocked "lost" "lose") := by
  obtain ⟨equal, exchanged⟩ := report_depends_on_externals mixed
  have same : ∀ name, mixed.External name → shelf.sources.get? name = crowded.get? name := by
    intro name external
    rcases externals_mixed external with rfl | rfl <;> rfl
  have lookups : ∀ name, mixed.External name → shelf.lookup? name = busy.lookup? name := by
    intro name external
    rcases externals_mixed external with rfl | rfl <;> rfl
  obtain ⟨final', ran, _⟩ := exchanged shelf _ _ crowded rfl same
  exact ⟨_, _, _, final', _, rfl, same, ran, rfl, equal shelf busy _ _ _ _ rfl rfl lookups, rfl⟩

end Tableflow.Program
