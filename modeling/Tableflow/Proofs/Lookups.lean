import Tableflow.Proofs.Comparison

/-!
Nothing that a run looks up is missing: rows have the cells that sorts and joins ask for, groups have
rows that are there, and the schedule names pipelines of the program.
-/

namespace Tableflow

/-! ### Outcomes without certain errors -/

section

variable {ε δ α β : Type} {bad : ε → Prop}

/-- If the outcome is an error, it is not a bad one. -/
def Avoids (bad : ε → Prop) (outcome : Except ε α) : Prop := ∀ e, outcome = .error e → ¬ bad e

theorem avoids_ok (value : α) : Avoids bad (.ok value) := nofun

theorem Avoids.bind {first : Except ε α} {next : α → Except ε β} (begun : Avoids bad first)
    (onward : ∀ value, first = .ok value → Avoids bad (next value)) : Avoids bad (first >>= next) := by
  cases first with
  | error e =>
    intro e' failed
    exact begun e' (congrArg Except.error (Except.error.inj failed))
  | ok value => exact onward value rfl

theorem avoids_mapError {f : δ → ε} (harmless : ∀ e, ¬ bad (f e)) (outcome : Except δ α) :
    Avoids bad (outcome.mapError f) := by
  cases outcome with
  | error e =>
    intro e' failed
    exact Except.error.inj failed ▸ harmless e
  | ok value => exact avoids_ok value

theorem avoids_mapM {f : α → Except ε β} {items : List α}
    (each : ∀ item ∈ items, Avoids bad (f item)) : Avoids bad (items.mapM f) := by
  induction items with
  | nil => exact avoids_ok []
  | cons item rest ih =>
    rw [List.forall_mem_cons] at each
    rw [List.mapM_cons]
    exact each.1.bind fun _ _ => (ih each.2).bind fun _ _ => avoids_ok _

theorem avoids_forM {f : α → Except ε Unit} {items : List α}
    (each : ∀ item ∈ items, Avoids bad (f item)) : Avoids bad (items.forM f) := by
  induction items with
  | nil => exact avoids_ok ()
  | cons item rest ih =>
    rw [List.forall_mem_cons] at each
    exact each.1.bind fun _ _ => ih each.2

end

/-! ### Expressions -/

section

open EvalError (demand)

variable {bad : EvalError → Prop} {Q : Float → Prop}
  (demands : ∀ (kind : Kind) (operation : String) (cell : Cell),
    Avoids bad (demand (cell.require kind operation)))

include demands

theorem UnaryOp.avoids_apply (op : UnaryOp) (cell : Cell) : Avoids bad (op.apply cell) := by
  cases op with
  | negate =>
    refine (demands _ _ _).bind fun _ _ => ?_
    split <;> exact avoids_ok _
  | not => exact (demands _ _ _).bind fun _ _ => avoids_ok _
  | hasKind kind => exact avoids_ok _
  | isMissing => exact avoids_ok _
  | convert kind => cases kind <;> exact avoids_ok _
  | part piece =>
    refine (demands _ _ _).bind fun _ _ => ?_
    split <;> exact avoids_ok _

/-- The errors of an expression are those of its lookups, of demands on kinds and of comparisons. -/
theorem Expr.avoids_eval_of {e : Expr} {row : Row} {index : Nat}
    (columns : ∀ name ∈ e.references, Avoids bad ((column name).eval row index))
    (evaluated : ∀ (e : Expr) (cell : Cell), e.Numbers Q → e.eval row index = .ok cell → cell.Numbers Q)
    (comparisons : ∀ (op : Comparison) (a b : Cell), a.Numbers Q → b.Numbers Q → Avoids bad (op.apply a b))
    (constants : e.Numbers Q) : Avoids bad (e.eval row index) := by
  induction e with
  | constant cell => exact avoids_ok cell
  | column name => exact columns name (List.mem_singleton.mpr rfl)
  | rowIndex => exact avoids_ok _
  | unary op arg ih => exact (ih columns constants).bind fun _ _ => op.avoids_apply demands _
  | binary op left right ihLeft ihRight =>
    rw [references, List.forall_mem_append] at columns
    have first := ihLeft columns.1 constants.1
    have second := ihRight columns.2 constants.2
    cases op with
    | arithmetic op =>
      refine first.bind fun _ _ => (demands _ _ _).bind fun _ _ => second.bind fun _ _ =>
        (demands _ _ _).bind fun _ _ => ?_
      split <;> exact avoids_ok _
    | comparison op =>
      exact first.bind fun a found => second.bind fun b found' => comparisons op a b
        (evaluated left a constants.1 found) (evaluated right b constants.2 found')
    | and =>
      refine first.bind fun _ _ => ?_
      split
      · exact second
      · exact avoids_ok _
    | or =>
      refine first.bind fun _ _ => ?_
      split
      · exact avoids_ok _
      · exact second
  | ifElse condition yes no ihCondition ihYes ihNo =>
    simp only [references, List.forall_mem_append] at columns
    obtain ⟨⟨columnsCondition, columnsYes⟩, columnsNo⟩ := columns
    refine (ihCondition columnsCondition constants.1).bind fun _ _ => ?_
    split
    · exact avoids_ok _
    · split
      · exact ihYes columnsYes constants.2.1
      · exact ihNo columnsNo constants.2.2

end

def EvalError.IsUnknown : EvalError → Prop
  | unknownColumn _ => True
  | mismatch _ => False

theorem avoids_demand (outcome : Except Mismatch Unit) :
    Avoids EvalError.IsUnknown (EvalError.demand outcome) :=
  avoids_mapError (fun _ => id) outcome

theorem Comparison.avoids_apply (op : Comparison) (left right : Cell) :
    Avoids EvalError.IsUnknown (op.apply left right) := by
  have ordered (a b : Value) : Avoids EvalError.IsUnknown (op.holds a b) := by
    cases compared : a.compare? b <;> cases op <;> simp only [holds, compared] <;> nofun
  refine (avoids_demand _).bind fun _ _ => ?_
  split
  · exact (ordered _ _).bind fun _ _ => avoids_ok _
  · exact avoids_ok _

/-- An expression whose columns are there fails for the kinds of its operands only. -/
theorem Expr.avoids_eval {e : Expr} {row : Row} (index : Nat)
    (present : ∀ name ∈ e.references, ∃ cell, row.get? name = some cell) :
    Avoids EvalError.IsUnknown (e.eval row index) := by
  refine Expr.avoids_eval_of (fun _ _ _ => avoids_demand _) (fun name mentioned => ?_)
    (fun _ cell _ _ => cell.numbers_of_forall fun _ => trivial) (fun op a b _ _ => op.avoids_apply a b)
    (e.numbers_of_forall fun _ => trivial)
  obtain ⟨cell, found⟩ := present name mentioned
  rw [eval, found]
  exact avoids_ok cell

theorem eval_cases_of_avoids {α : Type} {outcome : Except EvalError α}
    (known : Avoids EvalError.IsUnknown outcome) :
    (∃ value, outcome = .ok value) ∨ ∃ m, outcome = .error (.mismatch m) := by
  match outcome with
  | .ok value => exact .inl ⟨value, rfl⟩
  | .error (.mismatch m) => exact .inr ⟨m, rfl⟩
  | .error (.unknownColumn name) => exact absurd trivial (known _ rfl)

/-! ### Summaries -/

namespace Summary

/-- The middle of the numbers in order is made of numbers that are there. -/
def MiddleFound (xs : List Float) : Prop :=
  ∃ upper, (ascending xs)[xs.length / 2]? = some upper ∧
    ((xs.length % 2 = 1 ∧ middle xs = upper) ∨
      (xs.length % 2 = 0 ∧ 1 ≤ xs.length / 2 ∧
        ∃ lower, (ascending xs)[xs.length / 2 - 1]? = some lower ∧ middle xs = (lower + upper) / 2))

theorem middleFound {xs : List Float} (nonempty : xs ≠ []) : MiddleFound xs := by
  have positive : 0 < xs.length := List.length_pos_of_ne_nil nonempty
  have size : (ascending xs).length = xs.length := List.length_mergeSort xs
  have upper : xs.length / 2 < (ascending xs).length := by omega
  refine ⟨(ascending xs)[xs.length / 2], List.getElem?_eq_getElem upper, ?_⟩
  rcases Nat.mod_two_eq_zero_or_one xs.length with even | odd
  · have lower : xs.length / 2 - 1 < (ascending xs).length := by omega
    refine .inr ⟨even, by omega, (ascending xs)[xs.length / 2 - 1], List.getElem?_eq_getElem lower, ?_⟩
    simp [middle, even, List.getD_eq_getElem?_getD, List.getElem?_eq_getElem upper,
      List.getElem?_eq_getElem lower]
  · refine .inl ⟨odd, ?_⟩
    simp [middle, odd, List.getD_eq_getElem?_getD, List.getElem?_eq_getElem upper]

/-- A reduction starts from a first value, and its numbers have a middle. -/
def Grounded (s : Summary) (cells : List Cell) : Prop :=
  (cells.filterMap id = [] ∧ s.reduce cells = .ok none) ∨
  ∃ first rest, cells.filterMap id = first :: rest ∧ s.reduce cells = s.reduceValues first rest ∧
    ∀ xs, numbers s.name (first :: rest) = .ok xs → MiddleFound xs

theorem grounded (s : Summary) (cells : List Cell) : s.Grounded cells := by
  cases values : cells.filterMap id with
  | nil => exact .inl ⟨values, by rw [reduce, values]⟩
  | cons first rest =>
    refine .inr ⟨first, rest, values, by rw [reduce, values], fun xs listed => middleFound ?_⟩
    rintro rfl
    cases length_of_mapM listed

end Summary

/-! ### Stages -/

def StageError.IsAbsence : StageError → Prop
  | absentCell _ => True
  | _ => False

namespace Table

variable {t : Table} {c : Context} {names : List String}

theorem avoids_requireFor (t : Table) (names : List String) :
    Avoids StageError.IsAbsence (t.requireFor names) :=
  avoids_mapError (fun _ => id) _

theorem avoids_evaluate (t : Table) (e : Expr) : Avoids StageError.IsAbsence (t.evaluate e) :=
  (avoids_requireFor t e.columns).bind fun _ _ => avoids_mapError (fun _ => id) _

theorem avoids_presentCell {row : Row} {name : String} (present : ∃ cell, row.get? name = some cell) :
    Avoids StageError.IsAbsence (presentCell row name) := by
  rw [presentCell_eq present]
  exact avoids_ok _

theorem avoids_requireSortable (t : Table) (name : String) :
    Avoids StageError.IsAbsence (t.requireSortable name) := by
  refine Avoids.bind (avoids_mapError (fun _ => id) _) fun _ _ => ?_
  split <;> nofun

theorem avoids_sort (complete : t.Complete) (descending : Bool) :
    Avoids StageError.IsAbsence (t.sort names descending) := by
  refine (avoids_requireFor t names).bind fun _ required => ?_
  have present := requireFor_eq_ok.mp required
  refine (avoids_forM fun name _ => avoids_requireSortable t name).bind fun _ _ => ?_
  refine Avoids.bind (avoids_mapM fun row member => ?_) fun _ _ => avoids_ok _
  rw [mapM_presentCell complete present member]
  exact avoids_ok _

theorem avoids_keyedRows (complete : t.Complete) {column : String} (listed : column ∈ t.columns) :
    Avoids StageError.IsAbsence (t.keyedRows column) :=
  avoids_mapM fun row member =>
    (avoids_presentCell (complete row member column listed)).bind fun _ _ => avoids_ok _

theorem avoids_load (c : Context) (name : String) : Avoids StageError.IsAbsence (load c name) := by
  unfold load
  split <;> nofun

theorem avoids_join (tables : c.Holds Complete) {leftName leftColumn rightName rightColumn : String} :
    Avoids StageError.IsAbsence (join c leftName leftColumn rightName rightColumn) := by
  unfold join
  split
  · nofun
  · refine (avoids_load c leftName).bind fun left found => ?_
    refine (avoids_load c rightName).bind fun right found' => ?_
    refine (avoids_requireFor _ _).bind fun _ required => ?_
    refine (avoids_requireFor _ _).bind fun _ required' => ?_
    have listed : leftColumn ∈ left.columns := requireFor_eq_ok.mp required List.mem_cons_self
    have listed' : rightColumn ∈ right.columns := requireFor_eq_ok.mp required' List.mem_cons_self
    refine (avoids_keyedRows (tables _ _ (load_eq_ok.mp found')) listed').bind fun _ _ => ?_
    dsimp only
    split
    · nofun
    · exact (avoids_keyedRows (tables _ _ (load_eq_ok.mp found)) listed).bind fun _ _ => avoids_ok _

theorem lt_of_mem_members (regular : t.Regular Eq) {name : String} {cells : List Cell}
    (found : t.column name = .ok cells) {member : List Cell × List Nat} (known : member ∈ t.members) :
    ∀ number ∈ member.2, number < cells.length := by
  rw [column_eq_map regular.keyed.complete found, List.length_map]
  exact (rows_of_mem_members regular.fresh known).2

theorem avoids_summarize (regular : t.Regular Eq) (s : Summary) (column : String) :
    Avoids StageError.IsAbsence (t.summarize s column) := by
  refine Avoids.bind (avoids_mapError (fun _ => id) _) fun cells found => ?_
  have inside := @lt_of_mem_members t regular column cells (mapError_eq_ok.mp found)
  refine Avoids.bind (avoids_mapM fun member known => ?_) fun _ _ => avoids_ok _
  refine Avoids.bind (avoids_mapM fun number here => ?_) fun _ _ => ?_
  · rw [List.getElem?_eq_getElem (inside known number here)]
    exact avoids_ok _
  · exact Avoids.bind (avoids_mapError (fun _ => id) _) fun _ _ => avoids_ok _

end Table

namespace Step

open Std (TransCmp)

/-- What the stage of the step asks of the tables is there: the columns of an expression, so that it
can fail for the kinds of its operands only; the cells that rows are sorted by, which order the rows,
or joined by; and the rows of the groups that are summarized. -/
def Safe (step : Step) : Prop :=
  match step.stage with
  | .filter e | .mutate _ e => e.columns ⊆ step.input.columns →
    ∀ row ∈ step.input.rows, ∀ index, (∃ cell, e.eval row index = .ok cell) ∨
      ∃ m, e.eval row index = .error (.mismatch m)
  | .sort names descending => names ⊆ step.input.columns →
    (∀ row ∈ step.input.rows, ∀ name ∈ names, ∃ cell, row.get? name = some cell) ∧
    ((∀ name ∈ names, step.input.requireSortable name = .ok ()) →
      TransCmp (fun a b : { row // row ∈ step.input.rows } => Row.compareBy names descending a b) ∧
      step.result = .ok (.ofParts step.input.columns
        (stableSort (fun a b => (Row.compareBy names descending a b).isLT) step.input.rows)
        step.input.groupColumns))
  | .join leftName leftColumn rightName rightColumn => ∀ left right,
    step.seen.lookup? leftName = some left → step.seen.lookup? rightName = some right →
    leftColumn ∈ left.columns → rightColumn ∈ right.columns →
    (∀ row ∈ left.rows, ∃ cell, row.get? leftColumn = some cell) ∧
      ∀ row ∈ right.rows, ∃ cell, row.get? rightColumn = some cell
  | .summarize _ column => ∀ cells, step.input.column column = .ok cells →
    ∀ member ∈ step.input.members, ∀ number ∈ member.2, number < cells.length
  | _ => True

variable {step : Step}

theorem safe_of_regular (tables : step.seen.Holds (Table.Regular Eq))
    (regular : step.input.Regular Eq) (numbers : step.input.Numbers Number.HasOrder) : step.Safe := by
  obtain ⟨c, stage, input⟩ := step
  have complete := regular.keyed.complete
  have evaluated (e : Expr) (listed : e.columns ⊆ input.columns) (row : Row) (member : row ∈ input.rows)
      (index : Nat) : (∃ cell, e.eval row index = .ok cell) ∨
        ∃ m, e.eval row index = .error (.mismatch m) := by
    refine eval_cases_of_avoids (Expr.avoids_eval index fun name mentioned => ?_)
    exact complete row member name (listed (Names.mem_distinct.mpr mentioned))
  cases stage with
  | filter e => exact evaluated e
  | mutate column e => exact evaluated e
  | sort names descending =>
    intro present
    refine ⟨fun row member name named => complete row member name (present named), fun sortable => ?_⟩
    refine ⟨Row.transCmp_compareBy descending ?_ ?_, Table.sort_eq complete descending present sortable⟩
    · exact fun name _ row member => (numbers.rows row member).cell name
    · exact fun name named => Table.sameKind_of_requireSortable complete (sortable name named)
  | join leftTable leftColumn rightTable rightColumn =>
    intro left right found found' listed listed'
    exact ⟨fun row member => (tables _ _ found).keyed.complete row member _ listed,
      fun row member => (tables _ _ found').keyed.complete row member _ listed'⟩
  | summarize s column => exact fun cells found member => Table.lt_of_mem_members regular found
  | _ => trivial

theorem avoids_result (tables : step.seen.Holds (Table.Regular Eq))
    (regular : step.input.Regular Eq) : Avoids StageError.IsAbsence step.result := by
  obtain ⟨c, stage, input⟩ := step
  have complete := regular.keyed.complete
  cases stage with
  | drop columns => exact (Table.avoids_requireFor _ _).bind fun _ _ => avoids_ok _
  | filter e => exact (Table.avoids_evaluate _ _).bind fun _ _ => avoids_ok _
  | groupBy columns => exact avoids_mapError (fun _ => id) _
  | join leftTable leftColumn rightTable rightColumn =>
    exact Table.avoids_join fun name table found => (tables name table found).keyed.complete
  | mutate column e => exact (Table.avoids_evaluate _ _).bind fun _ _ => avoids_ok _
  | notify signal => exact avoids_ok _
  | read source => exact Table.avoids_load _ _
  | select columns => exact (Table.avoids_requireFor _ _).bind fun _ _ => avoids_ok _
  | sort columns descending => exact Table.avoids_sort complete descending
  | summarize s column => exact Table.avoids_summarize regular s column
  | ungroup => exact avoids_ok _
  | unique columns => exact (Table.avoids_requireFor _ _).bind fun _ _ => avoids_ok _

end Step

/-! ### Schedules -/

namespace Program

open Schedule

variable {p : Program} {jobs order : List Job}

theorem known_of_jobs (made : p.jobs = .ok jobs) : ∃ needs, p.dependencies = .ok needs ∧
    ∀ job ∈ jobs, p.pipelines.get? job.name = some job.pipeline ∧
      needs.get? job.name = some job.needs := by
  obtain ⟨producers, kept, rfl⟩ := map_eq_ok.mp made
  refine ⟨_, map_eq_ok.mpr ⟨producers, kept, rfl⟩, ?_⟩
  intro job member
  obtain ⟨entry, defined, rfl⟩ := List.mem_map.mp member
  have found : p.pipelines.get? entry.1 = some entry.2 := OrderedMap.get?_eq_some_iff.mpr defined
  exact ⟨found, by rw [OrderedMap.get?_map, found]; rfl⟩

theorem nodup_names_of_jobs (made : p.jobs = .ok jobs) : (jobs.map Job.name).Nodup := by
  obtain ⟨producers, -, rfl⟩ := map_eq_ok.mp made
  rw [List.map_map]
  exact p.pipelines.distinct

theorem known_of_schedule (made : p.schedule = .ok order) : ∃ needs, p.dependencies = .ok needs ∧
    ∀ job ∈ order, p.pipelines.get? job.name = some job.pipeline ∧
      needs.get? job.name = some job.needs := by
  obtain ⟨jobs, listed, made⟩ := bind_eq_ok.mp made
  obtain ⟨needs, kept, known⟩ := known_of_jobs listed
  refine ⟨needs, kept, fun job member => known job ?_⟩
  rcases order_cases (nodup_names_of_jobs listed) with ⟨result, ordered, _, perm⟩ | ⟨_, refused, _⟩
  · obtain rfl := Except.ok.inj (ordered.symm.trans made)
    exact perm.subset member
  · cases refused.symm.trans made

/-- The search for a circle goes from pipeline to pipeline. -/
theorem name_of_search {first : Job} {done : List Bool} (member : first ∈ jobs) {name : String}
    (search : Relation.ReflTransGen (fun current next => blocker? jobs done current = some next)
      first.name name) : ∃ job ∈ jobs, job.name = name := by
  induction search with
  | refl => exact ⟨first, member, rfl⟩
  | tail _ found _ => exact List.mem_map.mp (mem_of_isPending (blocker?_cases found).1)

end Program

/-! ### Runs -/

namespace Table

/-- Read from a document or from comma-separated text. -/
def IsImported (t : Table) : Prop :=
  (∃ json, ofJson json = .ok t) ∨ ∃ bytes, ofCsv bytes = .ok t

theorem IsImported.regular {t : Table} (imported : t.IsImported) : t.Regular Eq := by
  rcases imported with ⟨json, read⟩ | ⟨bytes, read⟩
  · exact ⟨fresh_of_ungrouped (ungrouped_of_ofJson read), keyed_of_ofJson conforming_eq read⟩
  · exact ⟨fresh_of_ungrouped (ungrouped_of_ofCsv read), keyed_of_ofCsv conforming_eq read⟩

theorem IsImported.numbers {t : Table} (imported : t.IsImported) : t.Numbers Number.HasOrder := by
  have admits : ∀ x, Number.IsFinite x → Number.HasOrder x := fun _ => Number.hasOrder_of_isFinite
  rcases imported with ⟨json, read⟩ | ⟨bytes, read⟩
  · exact numbers_of_ofJson admits read
  · exact numbers_of_ofCsv admits read

theorem counts_hasOrder (t : Table) : t.Counts Number.HasOrder :=
  ⟨fun _ _ => Number.nearest_ne_nan, fun _ _ _ _ => Number.nearest_ne_nan⟩

end Table

namespace Program

open Schedule

variable {p : Program} {c : Context}

/-- Rows have the names of the columns, groups are fresh and no number is not-a-number. -/
theorem holds_steps_of_imported {json : Json} (accepted : ofJson json = .ok p)
    (imported : c.Holds Table.IsImported) : ∀ step ∈ p.steps c,
      step.seen.Holds (fun t => t.Regular Eq ∧ t.Numbers Number.HasOrder) ∧
        step.input.Regular Eq ∧ step.input.Numbers Number.HasOrder := by
  have start : Table.Regular Eq .empty ∧ Table.Numbers Number.HasOrder .empty :=
    ⟨Table.regular_empty, Table.numbers_ungrouped (by simp)⟩
  refine (holds_steps start ?_ ?_).1
  · exact fun name t found => ⟨(imported name t found).regular, (imported name t found).numbers⟩
  · intro step member tables met output applied
    constructor
    · exact Table.keeps_regular Table.conforming_eq step.stage step.seen step.input output
        (fun name t found => (tables name t found).1) met.1 applied
    · exact Table.keeps_numbers (fun _ => Number.hasOrder_of_isFinite)
        (Table.formed_of_mem_steps accepted member) step.input.counts_hasOrder
        (fun name t found => (tables name t found).2) met.2 output applied

/-- A program from a document that runs on imported tables finds all that it looks up. Every step of
the run is safe and none ends with an absent cell; reductions have a first value and a middle; a
pipeline ends as succeeded or failed; and the pipelines and dependencies of all jobs are known, also
those that the search for a circle comes to. Operators that an evaluation has no case for cannot be
written down. -/
theorem lookups_never_fail {json : Json} (accepted : ofJson json = .ok p)
    (imported : c.Holds Table.IsImported) :
    Log.ofStages (p.run c).log = (p.steps c).map Step.entry ∧
    (∀ step ∈ p.steps c, step.Safe ∧ ∀ column, step.result ≠ .error (.absentCell column)) ∧
    (∀ report, (p.run c).value.1 = .ok report → ∀ name e, report.get? name = some (.failed e) →
      ∀ column, e.cause ≠ .absentCell column) ∧
    (∀ (s : Summary) (cells : List Cell), s.Grounded cells) ∧
    (∀ pipeline seen, (∃ result, ((Pipeline.Run.start pipeline).execute seen).value.phase =
        .succeeded result) ∨
      ∃ e, ((Pipeline.Run.start pipeline).execute seen).value.phase = .failed e) ∧
    (∀ order, p.schedule = .ok order → ∃ needs, p.dependencies = .ok needs ∧ ∀ job ∈ order,
      p.pipelines.get? job.name = some job.pipeline ∧ needs.get? job.name = some job.needs) ∧
    ∀ jobs done first name, p.jobs = .ok jobs → first ∈ jobs →
      Relation.ReflTransGen (fun current next => blocker? jobs done current = some next)
        first.name name →
      ∃ needs edges, p.dependencies = .ok needs ∧ needs.get? name = some edges := by
  have safe : ∀ step ∈ p.steps c, step.Safe ∧ ∀ column, step.result ≠ .error (.absentCell column) := by
    intro step member
    obtain ⟨tables, regular, numbers⟩ := holds_steps_of_imported accepted imported step member
    have shaped : step.seen.Holds (Table.Regular Eq) := fun name t found => (tables name t found).1
    exact ⟨Step.safe_of_regular shaped regular numbers, fun column failed =>
      Step.avoids_result shaped regular _ failed trivial⟩
  refine ⟨log_run p c, safe, ?_, Summary.grounded, ?_,
    fun _ => known_of_schedule, ?_⟩
  · intro report ran name e failed column absent
    obtain ⟨step, member, result⟩ := step_of_failure ran failed
    exact (safe step member).2 column (absent ▸ result)
  · intro pipeline seen
    rw [Pipeline.execute_ready rfl]
    show (∃ result, Pipeline.Phase.ofResult (pipeline.run seen).value = _) ∨
      ∃ e, Pipeline.Phase.ofResult (pipeline.run seen).value = _
    cases (pipeline.run seen).value with
    | ok result => exact .inl ⟨result, rfl⟩
    | error e => exact .inr ⟨e, rfl⟩
  · intro jobs done first name made member search
    obtain ⟨needs, kept, known⟩ := known_of_jobs made
    obtain ⟨job, there, rfl⟩ := name_of_search member search
    exact ⟨needs, job.needs, kept, (known job there).2⟩

/-- Orders are sorted, grouped and joined. -/
def audit : Program :=
  ⟨.ofList [("rank", ⟨[.read "orders",
      .filter (.binary (.comparison .greater) (.column "cost") (.constant (some (.number 1)))),
      .sort ["cost", "items"] true, .notify "ranked"]⟩),
    ("median", ⟨[.read "ranked", .groupBy ["cost"], .summarize .median "items"]⟩),
    ("match", ⟨[.join "ranked" "items" "list" "items"]⟩)]⟩

def ledgers (orders list : Table) : Context :=
  (Context.empty.addSource "orders" orders).addSource "list" list

theorem lookups_never_fail_audit :
    ∃ orders list report final, Table.ofJson Table.ordersJson = .ok orders ∧
      Table.ofCsv Table.ordersCsv = .ok list ∧ ofJson audit.toJson = .ok audit ∧
      (audit.run (ledgers orders list)).value = (.ok report, final) ∧ report.isSuccess = true ∧
      ((audit.steps (ledgers orders list)).map fun step => step.stage.kind) =
        ["read", "filter", "sort", "notify", "read", "groupBy", "summarize", "join"] ∧
      (∀ step ∈ audit.steps (ledgers orders list),
        step.Safe ∧ ∀ column, step.result ≠ .error (.absentCell column)) ∧
      ∃ order needs, audit.schedule = .ok order ∧ audit.dependencies = .ok needs ∧
        ∀ job ∈ order, needs.get? job.name = some job.needs := by
  have accepted : ofJson audit.toJson = .ok audit := ofJson_toJson (p := audit) (by decide)
  obtain ⟨orders, read⟩ : ∃ t, Table.ofJson Table.ordersJson = .ok t := ⟨_, rfl⟩
  obtain ⟨list, readCsv⟩ : ∃ t, Table.ofCsv Table.ordersCsv = .ok t := ⟨_, rfl⟩
  have imported : (ledgers orders list).Holds Table.IsImported :=
    (Context.holds_empty.addSource (.inl ⟨_, read⟩)).addSource (.inr ⟨_, readCsv⟩)
  obtain ⟨_, safe, _, _, _, scheduled, _⟩ := lookups_never_fail accepted imported
  obtain ⟨needs, kept, known⟩ := scheduled _ rfl
  obtain rfl := Except.ok.inj read
  obtain rfl := Except.ok.inj readCsv
  exact ⟨_, _, _, _, rfl, rfl, accepted, rfl, rfl, rfl, safe, _, needs, rfl, kept,
    fun job member => (known job member).2⟩

end Program

end Tableflow
