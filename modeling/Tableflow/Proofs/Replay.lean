import Tableflow.Proofs.Settlement

/-!
Replay: the final context explains every outcome. Running a pipeline again where the run has ended
gives again what it gave on its turn, and a blocked pipeline lacks a signal to the end.
-/

namespace Tableflow.Program

/-- What the end of a run shows of a pipeline with the given outcome. -/
def Explains (p : Program) (report : Report) (final : Context) (pipeline : Pipeline) :
    Outcome → Prop
  | .succeeded table =>
    ∃ notifications, (pipeline.run final).value = .ok ⟨table, notifications⟩ ∧
      notifications.map Prod.fst = pipeline.signals ∧
      ∀ signal published, (signal, published) ∈ notifications →
        final.signal? signal = some published
  | .failed e => (pipeline.run final).value = .error e
  | .blocked signal producer =>
    p.Notifies producer signal ∧
      (∃ outcome, report.get? producer = some outcome ∧ outcome.isSuccess = false) ∧
      final.signal? signal = none

variable {p : Program} {c : Context} {producers : OrderedMap String} {order : List Job}
  {report : Report} {final : Context} {job : Job}

theorem Settled.unmet (settled : Settled p c producers order report final) (member : job ∈ order)
    {need : Dependency} (waited : need ∈ job.needs)
    (unmet : report.hasSucceeded need.producer = false) :
    p.Notifies need.producer need.signal ∧
      (∃ outcome, report.get? need.producer = some outcome ∧ outcome.isSuccess = false) ∧
      final.signal? need.signal = none := by
  have owner := ((settled.listed.mem_needs member).mp waited).2
  obtain ⟨other, there, named, published⟩ := settled.listed.exists_producer member waited
  rw [← named] at unmet ⊢
  rw [settled.hasSucceeded_eq there] at unmet
  exact ⟨named ▸ owner, ⟨_, settled.outcome other there, unmet⟩,
    settled.signal?_of_unsuccessful there published unmet⟩

theorem Settled.explains (settled : Settled p c producers order report final)
    (member : job ∈ order) :
    p.Explains report final job.pipeline (job.attempt report final).1 := by
  rcases job.attempt_cases report final with
    ⟨need, waited, unmet, made⟩ | ⟨_, ⟨e, ran, made⟩ | ⟨result, ran, made⟩⟩
  · rw [made]
    exact settled.unmet member waited unmet
  · rw [made]
    exact ran
  · rw [made]
    refine ⟨result.notifications, ran, Pipeline.names_of_run ran, ?_⟩
    intro signal published noted
    exact settled.signal?_of_published member (by rw [made]; exact noted)

/-- Every pipeline of an accepted program has an outcome, and the final state explains it. -/
theorem replay_explains_outcomes {p : Program} {c final : Context} {report : Report}
    (ran : (p.run c).value = (.ok report, final)) {name : String} {pipeline : Pipeline}
    (defined : p.pipelines.get? name = some pipeline) :
    ∃ outcome, report.get? name = some outcome ∧ p.Explains report final pipeline outcome := by
  obtain ⟨producers, order, settled⟩ := settled_of_run ran
  obtain ⟨job, member, rfl, rfl⟩ := settled.listed.exists_job defined
  exact ⟨_, settled.outcome job member, settled.explains member⟩

/-- Pipelines with all three outcomes, those that wait defined before those they wait for. -/
def mixed : Program :=
  ⟨.ofList [("search", ⟨[.read "lost"]⟩), ("total", ⟨[.read "kept", .select ["item"]]⟩),
    ("lose", ⟨[.read "nowhere", .notify "lost"]⟩), ("keep", ⟨[.read "orders", .notify "kept"]⟩)]⟩

/-- A context with a source of one row. -/
def shelf : Context :=
  Context.empty.addSource "orders" ⟨["item"], [.ofList [("item", some (.text "pen"))]], none⟩

theorem replay_explains_mixed :
    ∃ report final, (mixed.run shelf).value = (.ok report, final) ∧
      report.get? "search" = some (.blocked "lost" "lose") ∧
      (∃ outcome, report.get? "search" = some outcome ∧
        mixed.Explains report final ⟨[.read "lost"]⟩ outcome) ∧
      (∃ outcome, report.get? "lose" = some outcome ∧
        mixed.Explains report final ⟨[.read "nowhere", .notify "lost"]⟩ outcome) ∧
      ∃ outcome, report.get? "total" = some outcome ∧
        mixed.Explains report final ⟨[.read "kept", .select ["item"]]⟩ outcome :=
  ⟨_, _, rfl, rfl, replay_explains_outcomes (c := shelf) rfl rfl,
    replay_explains_outcomes (c := shelf) rfl rfl, replay_explains_outcomes (c := shelf) rfl rfl⟩

end Tableflow.Program
