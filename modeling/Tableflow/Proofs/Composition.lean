import Tableflow.Proofs.Freshness

/-!
Pipelines in sequence. How a run ends is told by the tables that its stages make one after the other
and by nothing else, so a run of `first ++ second` is a run of `first` that `second` continues.
-/

namespace Tableflow

namespace Pipeline

variable {c : Context} {table next : Table} {first second rest stages : List Stage} {stage : Stage}
  {outcome other : Except PipelineError Result} {result : Result} {e : PipelineError}

/-- The table that the stages make of `table`, one after the other. -/
def through (c : Context) (table : Table) (stages : List Stage) : Except StageError Table :=
  stages.foldlM (fun table stage => stage.apply c table) table

/-- What the stages publish: at each signal the table that the stages before it have made. -/
def noticesAlong (c : Context) (table : Table) (stages : List Stage) : List (String × Table) :=
  stages.zipIdx.flatMap fun (stage, place) =>
    match stage.signal?, through c table (stages.take place) with
    | some signal, .ok reached => [(signal, reached)]
    | _, _ => []

/-- The stages end so when they are begun with `table`: all of them work, or one does not on the table
that reaches it. -/
def Continues (c : Context) (table : Table) (stages : List Stage) : Except PipelineError Result → Prop
  | .ok result =>
    through c table stages = .ok result.table ∧ result.notifications = noticesAlong c table stages
  | .error e => ∃ stage reached, stages[e.index]? = some stage ∧ e.kind = stage.kind ∧
      through c table (stages.take e.index) = .ok reached ∧ stage.apply c reached = .error e.cause

/-- An outcome as it looks after `count` stages that have published `notices`. -/
def resumed (count : Nat) (notices : List (String × Table)) :
    Except PipelineError Result → Except PipelineError Result
  | .ok result => .ok ⟨result.table, notices ++ result.notifications⟩
  | .error e => .error ⟨count + e.index, e.kind, e.cause⟩

/-! ### Tables on the way -/

theorem through_append (c : Context) (table : Table) (first second : List Stage) :
    through c table (first ++ second) =
      through c table first >>= fun reached => through c reached second := List.foldlM_append

theorem through_single (c : Context) (table : Table) (stage : Stage) :
    through c table [stage] = stage.apply c table := by
  show (stage.apply c table >>= pure) = _
  cases stage.apply c table <;> rfl

theorem through_append_of_ok (begun : through c table first = .ok next) :
    through c table (first ++ second) = through c next second := by
  rw [through_append, begun]
  rfl

/-- Stages that all work have worked up to each place. -/
theorem through_take_of_ok {reached : Table} (ended : through c table stages = .ok reached)
    (place : Nat) : ∃ made, through c table (stages.take place) = .ok made := by
  rw [← List.take_append_drop place stages, through_append] at ended
  obtain ⟨made, begun, _⟩ := bind_eq_ok.mp ended
  exact ⟨made, begun⟩

theorem noticesAlong_append (begun : through c table first = .ok next) :
    noticesAlong c table (first ++ second) = noticesAlong c table first ++ noticesAlong c next second := by
  unfold noticesAlong
  rw [List.zipIdx_append, List.flatMap_append]
  congr 1
  · refine List.flatMap_congr ?_
    rintro ⟨stage, place⟩ member
    have inside := List.snd_lt_of_mem_zipIdx member
    dsimp only at inside ⊢
    rw [List.take_append_of_le_length (by omega)]
  · rw [Nat.zero_add, List.zipIdx_eq_map_add, List.flatMap_map]
    refine List.flatMap_congr ?_
    rintro ⟨stage, place⟩ _
    dsimp only
    rw [List.take_length_add_append, through_append_of_ok begun]

theorem noticesAlong_single (applied : stage.apply c table = .ok next) :
    noticesAlong c table [stage] = noticesOf stage next := by
  cases stage with
  | notify signal =>
    obtain rfl := Except.ok.inj applied
    rfl
  | _ => rfl

/-! ### Ends of a run -/

theorem continues_append_of_error (ended : Continues c table first (.error e)) :
    Continues c table (first ++ second) (.error e) := by
  obtain ⟨stage, reached, found, kind, begun, failed⟩ := ended
  have inside := (List.getElem?_eq_some_iff.mp found).1
  refine ⟨stage, reached, ?_, kind, ?_, failed⟩
  · rw [List.getElem?_append_left inside, found]
  · rw [List.take_append_of_le_length (Nat.le_of_lt inside), begun]

theorem continues_append_of_ok (begun : Continues c table first (.ok result))
    (ended : Continues c result.table second outcome) :
    Continues c table (first ++ second) (resumed first.length result.notifications outcome) := by
  obtain ⟨reached, notices⟩ := begun
  cases outcome with
  | ok last =>
    obtain ⟨made, later⟩ := ended
    refine ⟨?_, ?_⟩
    · rw [through_append_of_ok reached, made]
    · rw [noticesAlong_append reached, ← notices, ← later]
  | error e =>
    obtain ⟨stage, made, found, kind, midway, failed⟩ := ended
    refine ⟨stage, made, ?_, kind, ?_, failed⟩
    · rw [List.getElem?_append_right (Nat.le_add_right _ _), Nat.add_sub_cancel_left, found]
    · rw [List.take_length_add_append, through_append_of_ok reached, midway]

theorem continues_nil (c : Context) (table : Table) : Continues c table [] (.ok ⟨table, []⟩) :=
  ⟨rfl, rfl⟩

theorem continues_cons_of_error (rest : List Stage) {cause : StageError}
    (failed : stage.apply c table = .error cause) :
    Continues c table (stage :: rest) (.error ⟨0, stage.kind, cause⟩) :=
  ⟨stage, table, rfl, rfl, rfl, failed⟩

theorem continues_cons_of_ok (applied : stage.apply c table = .ok next)
    (ended : Continues c next rest outcome) :
    Continues c table (stage :: rest) (resumed 1 (noticesOf stage next) outcome) := by
  have begun : Continues c table [stage] (.ok ⟨next, noticesOf stage next⟩) :=
    ⟨(through_single c table stage).trans applied, (noticesAlong_single applied).symm⟩
  exact continues_append_of_ok begun ended

/-- A failure is one of the stages up to its place, and not of those before it. -/
theorem through_take_of_error (ended : Continues c table stages (.error e)) :
    through c table (stages.take (e.index + 1)) = .error e.cause := by
  obtain ⟨stage, reached, found, _, begun, failed⟩ := ended
  rw [List.take_add_one, found, Option.toList_some, through_append_of_ok begun, through_single, failed]

theorem index_le_of_error {e' : PipelineError} (ended : Continues c table stages (.error e))
    (ended' : Continues c table stages (.error e')) : e.index ≤ e'.index := by
  have failed' := through_take_of_error ended'
  obtain ⟨_, _, _, _, begun, _⟩ := ended
  -- Were it later, the stages up to the other failure would all have worked.
  by_contra earlier
  obtain ⟨made, reached⟩ := through_take_of_ok begun (e'.index + 1)
  rw [List.take_take, Nat.min_eq_left (by omega)] at reached
  cases reached.symm.trans failed'

theorem not_continues_error_of_ok (ended : Continues c table stages (.ok result)) :
    ¬ Continues c table stages (.error e) := by
  intro ended'
  have failed := through_take_of_error ended'
  obtain ⟨made, reached⟩ := through_take_of_ok ended.1 (e.index + 1)
  cases reached.symm.trans failed

theorem Continues.unique (ended : Continues c table stages outcome)
    (ended' : Continues c table stages other) : other = outcome := by
  cases outcome with
  | ok result =>
    cases other with
    | error e => exact absurd ended' (not_continues_error_of_ok ended)
    | ok result' =>
      obtain ⟨made, notices⟩ := ended
      obtain ⟨made', notices'⟩ := ended'
      have tables : result'.table = result.table := Except.ok.inj (made'.symm.trans made)
      cases result
      cases result'
      simp_all
  | error e =>
    cases other with
    | ok result' => exact absurd ended (not_continues_error_of_ok ended')
    | error e' =>
      have places : e'.index = e.index :=
        Nat.le_antisymm (index_le_of_error ended' ended) (index_le_of_error ended ended')
      obtain ⟨stage, reached, found, kind, begun, failed⟩ := ended
      obtain ⟨stage', reached', found', kind', begun', failed'⟩ := ended'
      rw [places] at found' begun'
      obtain rfl := Option.some.inj (found.symm.trans found')
      obtain rfl := Except.ok.inj (begun.symm.trans begun')
      have causes : e'.cause = e.cause := Except.error.inj (failed'.symm.trans failed)
      cases e
      cases e'
      simp_all

/-! ### Runs -/

theorem value_runFrom_cons (c : Context) (phase : Phase) (index : Nat) (table : Table)
    (notifications : List (String × Table)) (stage : Stage) (rest : List Stage) :
    (runFrom c phase index table notifications (stage :: rest)).value =
      match stage.apply c table with
      | .ok next => (runFrom c (.running index) (index + 1) next
          (notifications ++ noticesOf stage next) rest).value
      | .error cause => .error ⟨index, stage.kind, cause⟩ := by
  simp only [runFrom, Logged.value_bind, Stage.perform, Logged.value_pure]
  cases stage.apply c table <;> rfl

theorem resumed_resumed (count count' : Nat) (notices notices' : List (String × Table))
    (outcome : Except PipelineError Result) :
    resumed count notices (resumed count' notices' outcome) =
      resumed (count + count') (notices ++ notices') outcome := by
  cases outcome with
  | ok result => simp [resumed]
  | error e => simp [resumed, Nat.add_assoc]

theorem resumed_zero (outcome : Except PipelineError Result) : resumed 0 [] outcome = outcome := by
  cases outcome with
  | ok result => rfl
  | error e => simp [resumed]

/-- Wherever a run stands, what is left of it ends as the stages do that are left. -/
theorem runFrom_continues (c : Context) (phase : Phase) (index : Nat) (table : Table)
    (notifications : List (String × Table)) (stages : List Stage) :
    ∃ outcome, Continues c table stages outcome ∧
      (runFrom c phase index table notifications stages).value =
        resumed index notifications outcome := by
  -- The place and the notices grow along the run; what is left does not depend on them.
  induction stages generalizing phase index table notifications with
  | nil =>
    refine ⟨_, continues_nil c table, ?_⟩
    simp [runFrom, resumed]
  | cons stage rest ih =>
    rw [value_runFrom_cons]
    cases applied : stage.apply c table with
    | error cause => exact ⟨_, continues_cons_of_error rest applied, rfl⟩
    | ok next =>
      obtain ⟨outcome, later, same⟩ :=
        ih (.running index) (index + 1) next (notifications ++ noticesOf stage next)
      refine ⟨_, continues_cons_of_ok applied later, ?_⟩
      rw [resumed_resumed, ← same]

theorem run_continues (p : Pipeline) (c : Context) : Continues c .empty p.stages (p.run c).value := by
  obtain ⟨outcome, ended, same⟩ := runFrom_continues c .ready 0 .empty [] p.stages
  rw [resumed_zero, ← run_eq_runFrom] at same
  exact same ▸ ended

theorem run_eq_of_continues {p : Pipeline} (ended : Continues c .empty p.stages outcome) :
    (p.run c).value = outcome := ended.unique (run_continues p c)

/-- A stage that loads its tables takes nothing from the one before it. -/
theorem apply_eq_of_loads (loads : stage.inputs ≠ []) (table other : Table) :
    stage.apply c table = stage.apply c other := by
  cases stage with
  | read source => rfl
  | join leftTable leftColumn rightTable rightColumn => rfl
  | _ => exact absurd rfl loads

theorem continues_of_loads (loads : stage.inputs ≠ []) (table other : Table)
    (ended : Continues c table (stage :: rest) outcome) :
    Continues c other (stage :: rest) outcome := by
  have same := apply_eq_of_loads (c := c) loads table other
  cases applied : stage.apply c table with
  | error cause =>
    obtain rfl := (continues_cons_of_error rest applied).unique ended
    exact continues_cons_of_error rest (same ▸ applied)
  | ok next =>
    obtain ⟨_, later, _⟩ := runFrom_continues c .ready 0 next [] rest
    obtain rfl := (continues_cons_of_ok applied later).unique ended
    exact continues_cons_of_ok (same ▸ applied) later

/-! ### Executions -/

theorem ofResult_cases (outcome : Except PipelineError Result) :
    (∃ result, outcome = .ok result ∧ Phase.ofResult outcome = .succeeded result) ∨
      ∃ e, outcome = .error e ∧ Phase.ofResult outcome = .failed e := by
  cases outcome with
  | ok result => exact .inl ⟨result, rfl, rfl⟩
  | error e => exact .inr ⟨e, rfl, rfl⟩

theorem execute_finished {run : Run} (begun : run.phase ≠ .ready) (c : Context) :
    run.execute c = pure run := by
  unfold Run.execute
  split
  · rename_i ready
    exact absurd ready begun
  · rfl

/-- A run of two lists of stages in sequence. If the first fails, all fails with the same error. If it
succeeds, all ends as the second does from the table that the first has made, a failure counted from
the first stage of all, and the notices of both follow each other, each with the table that reached
its stage. A second list that begins with loading a table ends as it does alone. An execution that is
ready succeeds or fails, and executing it again changes nothing. -/
theorem runs_compose (first second : List Stage) (c : Context) :
    Continues c .empty first (run ⟨first⟩ c).value ∧
    (∀ e, (run ⟨first⟩ c).value = .error e → (run ⟨first ++ second⟩ c).value = .error e) ∧
    (∀ result, (run ⟨first⟩ c).value = .ok result → ∃ outcome,
      (∀ other, Continues c result.table second other ↔ other = outcome) ∧
      (∀ last, outcome = .ok last → (run ⟨first ++ second⟩ c).value =
        .ok ⟨last.table, result.notifications ++ last.notifications⟩) ∧
      (∀ e, outcome = .error e → (run ⟨first ++ second⟩ c).value =
        .error ⟨first.length + e.index, e.kind, e.cause⟩) ∧
      ∀ stage rest, second = stage :: rest → ((∃ source, stage = .read source) ∨
          ∃ leftTable leftColumn rightTable rightColumn,
            stage = .join leftTable leftColumn rightTable rightColumn) →
        (run ⟨second⟩ c).value = outcome) ∧
    ∀ (execution : Run) (d : Context), execution.phase = .ready →
      ((∃ result, (execution.pipeline.run c).value = .ok result ∧
          (execution.execute c).value.phase = .succeeded result) ∨
        ∃ e, (execution.pipeline.run c).value = .error e ∧
          (execution.execute c).value.phase = .failed e) ∧
      (execution.execute c).value.execute d = pure (execution.execute c).value := by
  have begun : Continues c .empty first (run ⟨first⟩ c).value := run_continues ⟨first⟩ c
  refine ⟨begun, ?_, ?_, ?_⟩
  · intro e failed
    rw [failed] at begun
    exact run_eq_of_continues (p := ⟨first ++ second⟩) (continues_append_of_error begun)
  · intro result succeeded
    rw [succeeded] at begun
    obtain ⟨outcome, ended, _⟩ := runFrom_continues c .ready 0 result.table [] second
    have whole : (run ⟨first ++ second⟩ c).value = resumed first.length result.notifications outcome :=
      run_eq_of_continues (p := ⟨first ++ second⟩) (continues_append_of_ok begun ended)
    refine ⟨outcome, fun other => ⟨ended.unique, fun same => same ▸ ended⟩, ?_, ?_, ?_⟩
    · rintro last rfl
      exact whole
    · rintro e rfl
      exact whole
    · rintro stage rest rfl loading
      have loads : stage.inputs ≠ [] := by
        rcases loading with ⟨source, rfl⟩ | ⟨_, _, _, _, rfl⟩ <;> simp [Stage.inputs]
      exact run_eq_of_continues (continues_of_loads loads result.table .empty ended)
  · intro execution d ready
    have ended := ofResult_cases (execution.pipeline.run c).value
    rw [execute_ready ready]
    refine ⟨ended, execute_finished ?_ d⟩
    rcases ended with ⟨result, _, phase⟩ | ⟨e, _, phase⟩ <;> simp [phase]

def thinning : List Stage := [.read "stock", .notify "raw", .unique ["item"]]

def regrouping : List Stage := [.read "stock", .groupBy ["kind"], .notify "kinds", .ungroup]

theorem runs_compose_stock :
    (∃ result last, (run ⟨thinning⟩ Table.stock).value = .ok result ∧ result.table.rows.length = 3 ∧
      (run ⟨regrouping⟩ Table.stock).value = .ok last ∧ last.table.rows.length = 4 ∧
      (run ⟨thinning ++ regrouping⟩ Table.stock).value =
        .ok ⟨last.table, result.notifications ++ last.notifications⟩ ∧
      Continues Table.stock result.table regrouping (.ok last) ∧
      (result.notifications ++ last.notifications).map (fun notice => (notice.1, notice.2.rows.length)) =
        [("raw", 4), ("kinds", 4)]) ∧
    (run ⟨thinning ++ [.ungroup, .drop ["price"]]⟩ Table.stock).value =
      .error ⟨4, "drop", .table (.unknownColumn "price")⟩ ∧
    (run ⟨[.drop ["price"]] ++ thinning⟩ Table.stock).value =
      .error ⟨0, "drop", .table (.unknownColumn "price")⟩ ∧
    ∃ phase, ((Run.start ⟨thinning⟩).execute Table.stock).value.phase = .succeeded phase ∧
      (((Run.start ⟨thinning⟩).execute Table.stock).value.execute .empty).value.phase =
        .succeeded phase := by
  obtain ⟨_, _, continued, executed⟩ := runs_compose thinning regrouping Table.stock
  obtain ⟨outcome, ended, succeeds, _, alone⟩ := continued _ rfl
  obtain rfl : outcome = .ok _ := (alone _ _ rfl (.inl ⟨_, rfl⟩)).symm
  obtain ⟨_, _, dropped, _⟩ := runs_compose thinning [.ungroup, .drop ["price"]] Table.stock
  obtain ⟨outcome', ended', _, fails, _⟩ := dropped _ rfl
  have late : outcome' = .error ⟨1, "drop", .table (.unknownColumn "price")⟩ :=
    ((ended' (.error ⟨1, "drop", _⟩)).mp ⟨_, _, rfl, rfl, rfl, rfl⟩).symm
  obtain ⟨_, early, _⟩ := runs_compose [.drop ["price"]] thinning Table.stock
  obtain ⟨_, again⟩ := executed (Run.start ⟨thinning⟩) .empty rfl
  refine ⟨⟨_, _, rfl, rfl, rfl, rfl, succeeds _ rfl, (ended _).mpr rfl, rfl⟩, fails _ late, early _ rfl,
    _, rfl, ?_⟩
  rw [again]
  rfl

end Pipeline

end Tableflow
