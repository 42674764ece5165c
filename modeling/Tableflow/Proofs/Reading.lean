import Tableflow.Pipeline

/-!
What a pipeline takes from its context and what it gives back. A run depends on the context only
through the tables under `inputs`, and a run that ends well has published every one of `signals`.
-/

namespace Tableflow

theorem Table.load_congr {c d : Context} {name : String} (same : c.lookup? name = d.lookup? name) :
    Table.load c name = Table.load d name := by
  unfold Table.load
  rw [same]

theorem Stage.apply_congr {c d : Context} {stage : Stage}
    (same : ∀ name ∈ stage.inputs, c.lookup? name = d.lookup? name) (input : Table) :
    stage.apply c input = stage.apply d input := by
  cases stage with
  | read source => exact Table.load_congr (same source (by simp [Stage.inputs]))
  | join leftTable leftColumn rightTable rightColumn =>
    have left := Table.load_congr (same leftTable (by simp [Stage.inputs]))
    have right := Table.load_congr (same rightTable (by simp [Stage.inputs]))
    simp only [Stage.apply, Table.join, left, right]
  | _ => rfl

namespace Pipeline

/-! ### The result of a run -/

/-- The result of the stages that are left, with the log of the run around them. -/
def runFrom (c : Context) (phase : Phase) (index : Nat) (table : Table)
    (notifications : List (String × Table)) : List Stage → Logged (Except PipelineError Result)
  | [] => do
    let result : Result := ⟨table, notifications⟩
    Logged.entry .info .pipeline
      s!"pipeline finished with {table.rows.length} rows after {index} stages"
    logPhases phase (.succeeded result)
    return .ok result
  | stage :: rest => do
    logPhases phase (.running index)
    match ← stage.perform c table with
    | .ok next =>
      runFrom c (.running index) (index + 1) next (notifications ++ noticesOf stage next) rest
    | .error cause =>
      let e : PipelineError := ⟨index, stage.kind, cause⟩
      Logged.entry .warn .pipeline e.message
      logPhases (.running index) (.failed e)
      return .error e

/-- The loop leaves the run in the phase of the result. -/
theorem loop_eq (run : Run) (c : Context) (index : Nat) (table : Table)
    (notifications : List (String × Table)) (stages : List Stage) :
    run.loop c index table notifications stages =
      (runFrom c run.phase index table notifications stages >>= fun result =>
        pure { run with phase := .ofResult result }) := by
  induction stages generalizing run index table notifications with
  | nil => rfl
  | cons stage rest ih =>
    cases applied : stage.apply c table with
    | ok next =>
      have later := ih { run with phase := .running index } (index + 1) next
        (notifications ++ noticesOf stage next)
      apply Logged.ext
      · simp only [Run.loop, runFrom, Run.advance, Stage.perform, Logged.value_bind, Logged.value_pure,
          applied, later]
      · simp only [Run.loop, runFrom, Run.advance, Stage.perform, Logged.value_bind, Logged.value_pure,
          Logged.log_bind, Logged.log_pure, applied, later, List.append_assoc, List.nil_append]
    | error cause =>
      apply Logged.ext
      · simp only [Run.loop, runFrom, Run.advance, Stage.perform, Logged.value_bind, Logged.value_pure,
          applied]
        rfl
      · simp only [Run.loop, runFrom, Run.advance, Stage.perform, Logged.value_bind, Logged.value_pure,
          Logged.log_bind, Logged.log_pure, applied, List.append_nil]

theorem result_ofResult (outcome : Except PipelineError Result)
    (final : (Phase.ofResult outcome).isFinal = true) : (Phase.ofResult outcome).result final = outcome := by
  cases outcome <;> rfl

theorem execute_eq {run : Run} (ready : run.phase = .ready) (c : Context) :
    run.execute c = (runFrom c .ready 0 .empty [] run.pipeline.stages >>= fun result =>
      pure { run with phase := .ofResult result }) := by
  unfold Run.execute
  rw [ready, loop_eq, ready]

theorem run_eq_runFrom (p : Pipeline) (c : Context) :
    p.run c = runFrom c .ready 0 .empty [] p.stages := by
  have executed := @execute_eq (.start p) rfl c
  apply Logged.ext
  · have phase := congrArg (fun ended => ended.value.phase) executed
    simp only [run, phase]
    exact result_ofResult _ _
  · simp only [run, executed, Logged.log_bind, Logged.log_pure, List.append_nil]
    rfl

theorem execute_ready {run : Run} (ready : run.phase = .ready) (c : Context) :
    (run.execute c).value = ⟨run.pipeline, .ofResult (run.pipeline.run c).value⟩ := by
  rw [execute_eq ready, run_eq_runFrom]
  rfl

/-! ### Names that are read -/

theorem runFrom_congr {c d : Context} {stages : List Stage}
    (same : ∀ stage ∈ stages, ∀ name ∈ stage.inputs, c.lookup? name = d.lookup? name)
    (phase : Phase) (index : Nat) (table : Table) (notifications : List (String × Table)) :
    runFrom c phase index table notifications stages =
      runFrom d phase index table notifications stages := by
  induction stages generalizing phase index table notifications with
  | nil => rfl
  | cons stage rest ih =>
    have here := Stage.apply_congr (same stage List.mem_cons_self) table
    have later := ih fun other member => same other (List.mem_cons_of_mem _ member)
    simp only [runFrom, Stage.perform, here, later]

/-- Contexts that agree on the names a pipeline loads are the same to it, down to the log. -/
theorem run_congr {c d : Context} {p : Pipeline}
    (same : ∀ name ∈ p.inputs, c.lookup? name = d.lookup? name) : p.run c = p.run d := by
  rw [run_eq_runFrom, run_eq_runFrom]
  apply runFrom_congr
  intro stage member name loaded
  exact same name (List.mem_flatMap.mpr ⟨stage, member, loaded⟩)

/-! ### Names that are published -/

theorem names_noticesOf (stage : Stage) (table : Table) :
    (noticesOf stage table).map Prod.fst = stage.signal?.toList := by
  unfold noticesOf
  cases stage.signal? <;> rfl

theorem runFrom_cons_eq_ok {c : Context} {stage : Stage} {rest : List Stage} {phase : Phase}
    {index : Nat} {table : Table} {notifications : List (String × Table)} {result : Result}
    (ended : (runFrom c phase index table notifications (stage :: rest)).value = .ok result) :
    ∃ next, stage.apply c table = .ok next ∧
      (runFrom c (.running index) (index + 1) next (notifications ++ noticesOf stage next)
        rest).value = .ok result := by
  simp only [runFrom, Logged.value_bind, Stage.perform, Logged.value_pure] at ended
  cases applied : stage.apply c table with
  | error cause => simp [applied] at ended
  | ok next =>
    rw [applied] at ended
    exact ⟨next, rfl, ended⟩

theorem names_of_runFrom {c : Context} {stages : List Stage} {phase : Phase} {index : Nat}
    {table : Table} {notifications : List (String × Table)} {result : Result}
    (ended : (runFrom c phase index table notifications stages).value = .ok result) :
    result.notifications.map Prod.fst =
      notifications.map Prod.fst ++ stages.filterMap Stage.signal? := by
  induction stages generalizing phase index table notifications with
  | nil =>
    have same := Except.ok.inj ended
    simp [← same]
  | cons stage rest ih =>
    obtain ⟨next, _, later⟩ := runFrom_cons_eq_ok ended
    rw [ih later, List.map_append, names_noticesOf, List.append_assoc, List.filterMap_cons]
    cases stage.signal? <;> rfl

/-- A run that succeeds publishes the signals of its stages, each in its turn. -/
theorem names_of_run {c : Context} {p : Pipeline} {result : Result}
    (ended : (p.run c).value = .ok result) : result.notifications.map Prod.fst = p.signals := by
  rw [run_eq_runFrom] at ended
  exact names_of_runFrom ended

end Pipeline

end Tableflow
