import Tableflow.Document.Cell
import Tableflow.Proofs.Steps
import Tableflow.Table.Csv

/-!
Properties of tables along runs. A property that holds of the empty table and that the steps of a
run keep holds of every table that the run meets, publishes or ends with, if it holds of the tables
at hand when the run starts. Being reachable is such a property, which all stages keep.
-/

namespace Tableflow

/-- All tables that can be loaded have the property. -/
def Context.Holds (c : Context) (P : Table → Prop) : Prop :=
  ∀ name table, c.lookup? name = some table → P table

/-- Of tables with the property the stage makes tables with the property. -/
def Stage.Keeps (stage : Stage) (P : Table → Prop) : Prop :=
  ∀ c input output, c.Holds P → P input → stage.apply c input = .ok output → P output

/-- Of tables with the property the step makes a table with the property, if it makes one. -/
def Step.Keeps (step : Step) (P : Table → Prop) : Prop :=
  step.seen.Holds P → P step.input → ∀ output, step.result = .ok output → P output

variable {P : Table → Prop} {c : Context}

namespace Context

theorem holds_empty : empty.Holds P := by
  intro name table found
  cases found

theorem Holds.addSource (holds : c.Holds P) {name : String} {table : Table} (new : P table) :
    (c.addSource name table).Holds P := by
  intro other found lookup
  rw [lookup?, Context.addSource, Option.or_eq_some_iff, OrderedMap.get?_insert] at lookup
  rcases lookup with signal | ⟨unpublished, source⟩
  · exact holds other found (by rw [lookup?, signal, Option.some_or])
  · split at source
    · cases source
      exact new
    · exact holds other found (by rw [lookup?, unpublished, source, Option.none_or])

theorem Holds.record (holds : c.Holds P) {tables : List (String × Table)}
    (new : ∀ entry ∈ tables, P entry.2) : (c.record tables).Holds P := by
  induction tables generalizing c with
  | nil => exact holds
  | cons entry rest ih =>
    refine ih (c := c.record [entry]) ?_ fun other member => new other (List.mem_cons_of_mem _ member)
    intro name table found
    change ((c.signals.insert entry.1 entry.2).get? name).or (c.sources.get? name) = some table at found
    rw [OrderedMap.get?_insert] at found
    split at found
    · cases found
      exact new entry List.mem_cons_self
    · exact holds name table found

end Context

/-! ### One pipeline -/

namespace Pipeline

variable {table : Table} {stages : List Stage}

theorem mem_noticesOf {stage : Stage} {table : Table} {entry : String × Table}
    (sent : entry ∈ noticesOf stage table) : entry.2 = table := by
  unfold noticesOf at sent
  split at sent
  · rw [List.mem_singleton.mp sent]
  · cases sent

theorem stepsFrom_cons {stage : Stage} {next : Table} (applied : stage.apply c table = .ok next) :
    stepsFrom c table (stage :: stages) = ⟨c, stage, table⟩ :: stepsFrom c next stages := by
  rw [stepsFrom, applied]

theorem holds_stepsFrom (holds : c.Holds P) (start : P table)
    (keeps : ∀ step ∈ stepsFrom c table stages, step.Keeps P) :
    ∀ step ∈ stepsFrom c table stages, step.seen.Holds P ∧ P step.input := by
  induction stages generalizing table with
  | nil => intro step member; cases member
  | cons stage rest ih =>
    intro step member
    rcases List.mem_cons.mp member with rfl | later
    · exact ⟨holds, start⟩
    · split at later
      · rename_i next applied
        rw [stepsFrom_cons applied, List.forall_mem_cons] at keeps
        exact ih (keeps.1 holds start next applied) keeps.2 step later
      · cases later

theorem holds_of_runFrom (holds : c.Holds P) (start : P table)
    (keeps : ∀ step ∈ stepsFrom c table stages, step.Keeps P) {phase : Phase} {index : Nat}
    {notifications : List (String × Table)} (sent : ∀ entry ∈ notifications, P entry.2)
    {result : Result}
    (ended : (runFrom c phase index table notifications stages).value = .ok result) :
    P result.table ∧ ∀ entry ∈ result.notifications, P entry.2 := by
  induction stages generalizing phase index table notifications with
  | nil =>
    obtain rfl := Except.ok.inj ended
    exact ⟨start, sent⟩
  | cons stage rest ih =>
    obtain ⟨next, applied, later⟩ := runFrom_cons_eq_ok ended
    rw [stepsFrom_cons applied, List.forall_mem_cons] at keeps
    have kept : P next := keeps.1 holds start next applied
    refine ih kept keeps.2 ?_ later
    intro entry member
    rcases List.mem_append.mp member with old | new
    · exact sent entry old
    · rw [mem_noticesOf new]
      exact kept

end Pipeline

/-! ### All pipelines -/

namespace Program

variable {p : Program} {job : Job} {jobs : List Job} {state : Report × Context}

/-- All tables that can be loaded and all that pipelines have ended with have the property. -/
structure Sound (P : Table → Prop) (state : Report × Context) : Prop where
  tables : state.2.Holds P
  results : ∀ name table, state.1.get? name = some (.succeeded table) → P table

theorem Sound.advance (sound : Sound P state) (start : P .empty)
    (keeps : ∀ step ∈ (turnOf state job).steps, step.Keeps P) :
    (∀ step ∈ (turnOf state job).steps, step.seen.Holds P ∧ P step.input) ∧
      Sound P (advance state job) := by
  have turn : (∀ step ∈ (turnOf state job).steps, step.seen.Holds P ∧ P step.input) ∧
      (∀ table, (job.attempt state.1 state.2).1 = .succeeded table → P table) ∧
      ∀ entry ∈ (job.attempt state.1 state.2).2, P entry.2 := by
    simp only [Turn.steps, turnOf] at keeps ⊢
    rcases Job.attempt_cases job state.1 state.2 with
      ⟨_, _, _, made⟩ | ⟨_, ⟨_, _, made⟩ | ⟨result, ran, made⟩⟩ <;> rw [made] at keeps ⊢
    · simp
    · exact ⟨Pipeline.holds_stepsFrom sound.tables start keeps, by simp⟩
    · rw [Pipeline.run_eq_runFrom] at ran
      have kept := Pipeline.holds_of_runFrom sound.tables start keeps (by simp) ran
      exact ⟨Pipeline.holds_stepsFrom sound.tables start keeps, by simpa using kept⟩
  refine ⟨turn.1, sound.tables.record turn.2.2, ?_⟩
  intro name table found
  rw [Program.advance, OrderedMap.get?_insert] at found
  split at found
  · exact turn.2.1 table (Option.some.inj found)
  · exact sound.results name table found

theorem Sound.foldl (sound : Sound P state) (start : P .empty)
    (keeps : ∀ step ∈ (turnsFrom state jobs).flatMap Turn.steps, step.Keeps P) :
    (∀ step ∈ (turnsFrom state jobs).flatMap Turn.steps, step.seen.Holds P ∧ P step.input) ∧
      Sound P (jobs.foldl Program.advance state) := by
  induction jobs generalizing state with
  | nil => exact ⟨by simp [turnsFrom], sound⟩
  | cons job rest ih =>
    simp only [turnsFrom, List.flatMap_cons, List.forall_mem_append] at keeps ⊢
    obtain ⟨met, advanced⟩ := sound.advance start keeps.1
    obtain ⟨later, ended⟩ := ih advanced keeps.2
    exact ⟨⟨met, later⟩, ended⟩

/-- What the steps of a run keep holds of all tables that they are applied to, that are published
and that pipelines end with. -/
theorem holds_steps (start : P .empty) (holds : c.Holds P)
    (keeps : ∀ step ∈ p.steps c, step.Keeps P) :
    (∀ step ∈ p.steps c, step.seen.Holds P ∧ P step.input) ∧ (p.run c).value.2.Holds P ∧
      ∀ report, (p.run c).value.1 = .ok report →
        ∀ name table, report.get? name = some (.succeeded table) → P table := by
  rcases steps_cases p c with ⟨none, _, e, refused⟩ | ⟨producers, order, made, plan⟩
  · rw [none, refused]
    exact ⟨by simp, holds, by simp⟩
  · have begun : Sound P (.empty, c) := ⟨holds, by simp⟩
    rw [steps_of_plan plan made] at keeps ⊢
    obtain ⟨met, ended⟩ := begun.foldl start keeps
    rw [run_of_plan plan made]
    refine ⟨met, ended.tables, ?_⟩
    rintro report ran
    obtain rfl := Except.ok.inj ran
    exact ended.results

/-- What the stages of a program keep, its runs keep. -/
theorem holds_run (start : P .empty)
    (keeps : ∀ name pipeline, p.pipelines.get? name = some pipeline →
      ∀ stage ∈ pipeline.stages, stage.Keeps P)
    (holds : c.Holds P) :
    (p.run c).value.2.Holds P ∧ ∀ report, (p.run c).value.1 = .ok report →
      ∀ name table, report.get? name = some (.succeeded table) → P table := by
  refine (holds_steps start holds ?_).2
  intro step member holds met output applied
  obtain ⟨name, pipeline, defined, listed⟩ := stage_of_mem_steps member
  exact keeps name pipeline defined step.stage listed step.seen step.input output holds met applied

end Program

/-! ### Reachable tables -/

/-- Tables that are read from outside, made by stages out of such tables, grouped or ungrouped. -/
inductive Table.Reachable : Table → Prop where
  | empty : Reachable .empty
  | ofRows {rows : List Row} {t : Table} : ofRows rows = .ok t → Reachable t
  | ofJson {json : Json} {t : Table} : ofJson json = .ok t → Reachable t
  | ofCsv {bytes : ByteArray} {t : Table} : ofCsv bytes = .ok t → Reachable t
  | stage {c : Context} {stage : Stage} {t made : Table} :
    (∀ name table, c.lookup? name = some table → Reachable table) → Reachable t →
      stage.apply c t = .ok made → Reachable made
  | groupBy {columns : List String} {t made : Table} : Reachable t →
      t.groupBy columns = .ok made → Reachable made
  | ungroup {t : Table} : Reachable t → Reachable t.ungroup

theorem Stage.keeps_reachable (stage : Stage) : stage.Keeps Table.Reachable :=
  fun _ _ _ holds reachable applied => .stage holds reachable applied

end Tableflow
