import Tableflow.Proofs.RoundTrip
import Tableflow.Proofs.Settlement

/-!
Programs that are saved and loaded again. The loaded program has the same schedule and is refused
for the same reasons; it is the same program, and so runs in the same way, unless one of its
constants is a negative zero.
-/

namespace Tableflow

/-! ### The schedule -/

section

variable {f : Pipeline → Pipeline}

/-- The job with another pipeline. -/
def Job.remake (f : Pipeline → Pipeline) (job : Job) : Job := { job with pipeline := f job.pipeline }

namespace Schedule

variable {jobs order : List Job} {done : List Bool}

theorem isMet_remake (job : Job) :
    isMet (order.map (Job.remake f)) (job.remake f) = isMet order job := by
  simp only [isMet, List.any_map]
  rfl

theorem zip_remake : (jobs.map (Job.remake f)).zip done =
    (jobs.zip done).map fun entry => (entry.1.remake f, entry.2) := List.zip_map_left ..

theorem isPending_remake (name : String) :
    isPending (jobs.map (Job.remake f)) done name = isPending jobs done name := by
  rw [isPending, zip_remake, List.find?_map, Option.any_map]
  rfl

theorem blocker?_remake (name : String) :
    blocker? (jobs.map (Job.remake f)) done name = blocker? jobs done name := by
  have pending : isPending (jobs.map (Job.remake f)) done = isPending jobs done :=
    funext isPending_remake
  have found : (jobs.map (Job.remake f)).find? (fun job => job.name = name) =
      (jobs.find? fun job => job.name = name).map (Job.remake f) := by
    rw [List.find?_map]
    rfl
  rw [blocker?, blocker?, pending, found]
  cases jobs.find? fun job => job.name = name with
  | none => rfl
  | some job => rfl

theorem walk_remake (fuel : Nat) (path : List String) (current : String) :
    walk (jobs.map (Job.remake f)) done fuel path current = walk jobs done fuel path current := by
  induction fuel generalizing path current with
  | zero => rfl
  | succ fuel ih => simp only [walk, blocker?_remake, ih]

theorem findCycle_remake : findCycle (jobs.map (Job.remake f)) done = findCycle jobs done := by
  have first : ((jobs.map (Job.remake f)).zip done).find? (fun entry => !entry.2) =
      ((jobs.zip done).find? fun entry => !entry.2).map fun entry => (entry.1.remake f, entry.2) := by
    rw [zip_remake, List.find?_map]
    rfl
  rw [findCycle, findCycle, first, List.length_map]
  cases (jobs.zip done).find? fun entry => !entry.2 with
  | none => rfl
  | some entry => exact walk_remake _ _ _

theorem extend_remake (count : Nat) :
    extend (jobs.map (Job.remake f)) count (order.map (Job.remake f)) done =
      (extend jobs count order done).map (List.map (Job.remake f)) := by
  induction count generalizing order done with
  | zero => rfl
  | succ count ih =>
    have first : ((jobs.map (Job.remake f)).zip done).zipIdx.find? (fun entry =>
          !entry.1.2 && isMet (order.map (Job.remake f)) entry.1.1) =
        ((jobs.zip done).zipIdx.find? fun entry => !entry.1.2 && isMet order entry.1.1).map
          fun entry => ((entry.1.1.remake f, entry.1.2), entry.2) := by
      rw [zip_remake, List.zipIdx_map, List.find?_map]
      simp only [Function.comp_def, Prod.map, isMet_remake, id]
      rfl
    rw [extend, extend, first]
    cases (jobs.zip done).zipIdx.find? fun entry => !entry.1.2 && isMet order entry.1.1 with
    | none =>
      simp only [Option.map_none, findCycle_remake]
      rfl
    | some entry =>
      simp only [Option.map_some, ← ih, List.map_append, List.map_cons, List.map_nil]

theorem order_remake : Schedule.order (jobs.map (Job.remake f)) =
    (Schedule.order jobs).map (List.map (Job.remake f)) := by
  rw [Schedule.order, List.length_map]
  exact @extend_remake f jobs [] _ jobs.length

end Schedule

namespace Program

variable {p : Program} {c : Context}

theorem notices_map (signals : ∀ q, (f q).signals = q.signals) :
    (Program.mk (p.pipelines.map f)).notices = p.notices := by
  simp only [notices, OrderedMap.map, List.flatMap_map, signals]

theorem schedule_map (inputs : ∀ q, (f q).inputs = q.inputs)
    (signals : ∀ q, (f q).signals = q.signals) :
    (Program.mk (p.pipelines.map f)).schedule = p.schedule.map (List.map (Job.remake f)) := by
  have producers : (Program.mk (p.pipelines.map f)).producers = p.producers := by
    rw [Program.producers, Program.producers, notices_map signals]
  have jobs : (Program.mk (p.pipelines.map f)).jobs = p.jobs.map (List.map (Job.remake f)) := by
    rw [Program.jobs, Program.jobs, producers]
    cases p.producers with
    | error e => rfl
    | ok producers =>
      refine congrArg Except.ok ?_
      simp only [OrderedMap.map, List.map_map, Function.comp_def, Job.remake, dependenciesOf, inputs]
  rw [schedule, schedule, jobs]
  cases p.jobs with
  | error e => rfl
  | ok jobs => exact Schedule.order_remake

/-- A schedule that no signal stands against is carried out. -/
theorem run_of_schedule {order : List Job} (made : p.schedule = .ok order)
    (untaken : p.signals.find? (fun signal => (c.signal? signal).isSome) = none) :
    ∃ report final, (p.run c).value = (.ok report, final) := by
  have unique : p.signals.Nodup := by
    refine Classical.byContradiction fun repeated => ?_
    obtain ⟨_, _, _, _, refused⟩ := producers_of_repeat repeated
    rw [schedule, jobs, refused] at made
    cases made
  obtain ⟨producers, jobs, _, listed, ⟨_, _, again, greedy, perm⟩ | ⟨_, path, refused⟩⟩ :=
    schedule_cases unique
  · obtain rfl := Except.ok.inj (made.symm.trans again)
    have plan : Plan p c producers order :=
      ⟨listed.perm perm, greedy.sequenced, unique, fun signal published => by
        simpa using List.find?_eq_none.mp untaken signal published⟩
    exact ⟨_, _, run_of_plan plan made⟩
  · cases made.symm.trans refused

/-- What a run is refused for, if it is. -/
theorem refused_iff {e : ProgramError} : (p.run c).value.1 = .error e ↔
    p.schedule = .error e ∨ ∃ order signal, p.schedule = .ok order ∧
      p.signals.find? (fun signal => (c.signal? signal).isSome) = some signal ∧
      .alreadyPublished signal = e := by
  cases made : p.schedule with
  | error refusal =>
    have ran : (p.run c).value = (.error refusal, c) := by
      rw [run, made]
      rfl
    simp [ran]
  | ok order =>
    cases found : p.signals.find? fun signal => (c.signal? signal).isSome with
    | some signal => simp [run_of_taken made found]
    | none =>
      obtain ⟨report, final, ran⟩ := run_of_schedule made found
      simp [ran]

theorem refused_map_iff (inputs : ∀ q, (f q).inputs = q.inputs)
    (signals : ∀ q, (f q).signals = q.signals) {e : ProgramError} :
    ((Program.mk (p.pipelines.map f)).run c).value.1 = .error e ↔ (p.run c).value.1 = .error e := by
  have same : (Program.mk (p.pipelines.map f)).signals = p.signals := by
    rw [← names_notices, notices_map signals, names_notices]
  rw [refused_iff, refused_iff, same, schedule_map inputs signals]
  cases p.schedule with
  | error refusal => exact Iff.rfl
  | ok order =>
    constructor
    · rintro (refused | ⟨_, signal, -, taken⟩)
      · cases refused
      · exact .inr ⟨order, signal, rfl, taken⟩
    · rintro (refused | ⟨_, signal, -, taken⟩)
      · cases refused
      · exact .inr ⟨_, signal, rfl, taken⟩

theorem runOrder_map (inputs : ∀ q, (f q).inputs = q.inputs)
    (signals : ∀ q, (f q).signals = q.signals) :
    (Program.mk (p.pipelines.map f)).runOrder = p.runOrder := by
  rw [runOrder, runOrder, schedule_map inputs signals]
  cases p.schedule with
  | error refusal => rfl
  | ok order =>
    refine congrArg Except.ok ?_
    simp only [List.map_map]
    rfl

end Program

end

/-! ### Programs without negative zeros -/

theorem Cell.unsigned_eq_self {cell : Cell} (signless : cell ≠ some (.number (-0))) :
    cell.unsigned = cell := by
  cases cell with
  | none => rfl
  | some v =>
    cases v with
    | number x =>
      rw [unsigned, Number.unsigned_eq_self]
      rintro rfl
      exact signless rfl
    | _ => rfl

namespace Expr

def constants : Expr → List Cell
  | constant cell => [cell]
  | column _ => []
  | rowIndex => []
  | unary _ arg => arg.constants
  | binary _ left right => left.constants ++ right.constants
  | ifElse condition yes no => condition.constants ++ yes.constants ++ no.constants

theorem unsigned_eq_self {e : Expr} (signless : some (.number (-0)) ∉ e.constants) :
    e.unsigned = e := by
  induction e with
  | constant cell =>
    rw [unsigned, Cell.unsigned_eq_self]
    rintro rfl
    exact signless List.mem_cons_self
  | column name => rfl
  | rowIndex => rfl
  | unary op arg ih => rw [unsigned, ih signless]
  | binary op left right ihLeft ihRight =>
    simp only [constants, List.mem_append, not_or] at signless
    rw [unsigned, ihLeft signless.1, ihRight signless.2]
  | ifElse condition yes no ihCondition ihYes ihNo =>
    simp only [constants, List.mem_append, not_or] at signless
    rw [unsigned, ihCondition signless.1.1, ihYes signless.1.2, ihNo signless.2]

end Expr

namespace Stage

def constants : Stage → List Cell
  | filter e => e.constants
  | mutate _ e => e.constants
  | _ => []

theorem unsigned_eq_self {stage : Stage} (signless : some (.number (-0)) ∉ stage.constants) :
    stage.unsigned = stage := by
  cases stage with
  | filter e => rw [unsigned, Expr.unsigned_eq_self signless]
  | mutate column e => rw [unsigned, Expr.unsigned_eq_self signless]
  | _ => rfl

theorem inputs_unsigned (stage : Stage) : stage.unsigned.inputs = stage.inputs := by
  cases stage <;> rfl

theorem signal?_unsigned (stage : Stage) : stage.unsigned.signal? = stage.signal? := by
  cases stage <;> rfl

end Stage

namespace Pipeline

def constants (p : Pipeline) : List Cell := p.stages.flatMap Stage.constants

theorem unsigned_eq_self {p : Pipeline} (signless : some (.number (-0)) ∉ p.constants) :
    p.unsigned = p := by
  refine congrArg Pipeline.mk ((List.map_congr_left fun stage here => ?_).trans (List.map_id _))
  exact Stage.unsigned_eq_self fun there =>
    signless (List.mem_flatMap.mpr ⟨stage, here, there⟩)

theorem inputs_unsigned (p : Pipeline) : p.unsigned.inputs = p.inputs := by
  simp only [inputs, unsigned, List.flatMap_map, Stage.inputs_unsigned]

theorem signals_unsigned (p : Pipeline) : p.unsigned.signals = p.signals := by
  simp only [signals, unsigned, List.filterMap_map, Function.comp_def, Stage.signal?_unsigned]

end Pipeline

namespace Program

/-- All fixed cells in the expressions of a program. -/
def constants (p : Program) : List Cell := p.pipelines.values.flatMap Pipeline.constants

theorem unsigned_eq_self {p : Program} (signless : some (.number (-0)) ∉ p.constants) :
    p.unsigned = p := by
  refine congrArg Program.mk (OrderedMap.eq_of_entries ?_)
  refine (List.map_congr_left fun entry here => ?_).trans (List.map_id _)
  rw [Pipeline.unsigned_eq_self]
  · rfl
  · exact fun there => signless (List.mem_flatMap.mpr ⟨entry.2, List.mem_map_of_mem here, there⟩)

/-- A program that was read from a document can be saved and loaded again. The loaded one is equal
to it, has the same run order and is refused for the same reasons; it runs in the same way if no
constant is a negative zero. -/
theorem reloading_keeps_runs {json : Json} {p : Program} (accepted : ofJson json = .ok p) :
    ∃ reloaded, ofJson p.toJson = .ok reloaded ∧ (reloaded == p) = true ∧
      reloaded.runOrder = p.runOrder ∧
      (∀ c e, (reloaded.run c).value.1 = .error e ↔ (p.run c).value.1 = .error e) ∧
      (some (.number (-0)) ∉ p.constants → ∀ c, reloaded.run c = p.run c) := by
  have formed := wellFormed_of_ofJson accepted
  refine ⟨p.unsigned, ofJson_toJson formed, unsigned_beq formed,
    runOrder_map Pipeline.inputs_unsigned Pipeline.signals_unsigned,
    fun _ _ => refused_map_iff Pipeline.inputs_unsigned Pipeline.signals_unsigned, ?_⟩
  intro signless c
  rw [unsigned_eq_self signless]

/-- A number is written into a column as text. -/
def note (x : Float) : Program :=
  ⟨.ofList [("main", ⟨[.read "desk",
    .mutate "note" (.unary (.convert .text) (.constant (some (.number x))))]⟩)]⟩

/-- The document of `note` with nodes as arrays. -/
def noteJson (x : Float) : Json :=
  .object [("main", .array [
    .array [.string "@stage", .string "read", .string "desk"],
    .array [.string "@stage", .string "mutate", .string "note",
      .array [.string "@op", .string "toText",
        .array [.string "@value", .string "number", .float x]]]])]

def desk : Context := Context.empty.addSource "desk" ⟨["page"], [.ofList [("page", none)]], none⟩

theorem ofJson_noteJson {x : Float} (finite : x.isFinite = true) :
    ofJson (noteJson x) = .ok (note x) := by
  have number : Expr.ofJson (.array [.string "@value", .string "number", .float x]) =
      .ok (.constant (some (.number x))) := by
    refine Expr.ofJson_eq_ok.mpr ⟨_, rfl, .leaf rfl ?_⟩
    refine bind_eq_ok.mpr ⟨_, rfl, ?_⟩
    exact if_pos finite
  have text : Expr.ofJson (.array [.string "@op", .string "toText",
      .array [.string "@value", .string "number", .float x]]) =
      .ok (.unary (.convert .text) (.constant (some (.number x)))) :=
    Expr.ofJson_eq_ok.mpr ⟨_, rfl, .unary rfl rfl rfl number⟩
  have mutate : Stage.ofJson (.array [.string "@stage", .string "mutate", .string "note",
      .array [.string "@op", .string "toText",
        .array [.string "@value", .string "number", .float x]]]) =
      .ok (.mutate "note" (.unary (.convert .text) (.constant (some (.number x))))) := by
    refine Stage.ofJson_eq_ok.mpr ⟨_, rfl, rfl, bind_eq_ok.mpr ⟨"note", rfl, ?_⟩⟩
    refine bind_eq_ok.mpr ⟨_, bind_eq_ok.mpr ⟨_, rfl, under_eq_ok.mpr text⟩, rfl⟩
  refine ofJson_eq_ok.mpr ⟨_, [("main", _)], rfl, ?_, rfl⟩
  refine congrArg (fun outcome => [("main", outcome)]) (Pipeline.ofNamedJson_eq_ok.mpr ⟨_, rfl, ?_⟩)
  rw [List.map_cons, List.map_cons, mutate]
  rfl

theorem reloading_keeps_note :
    ∃ reloaded, ofJson (noteJson 0.1) = .ok (note 0.1) ∧ some (.number (-0)) ∉ (note 0.1).constants ∧
      ofJson (note 0.1).toJson = .ok reloaded ∧ reloaded.run desk = (note 0.1).run desk := by
  have accepted : ofJson (noteJson 0.1) = .ok (note 0.1) := ofJson_noteJson rfl
  have signless : some (.number (-0)) ∉ (note 0.1).constants := by
    intro here
    have same := Value.number.inj (Option.some.inj (List.mem_singleton.mp here))
    exact absurd (congrArg Float.toBits same) (by decide)
  obtain ⟨reloaded, again, _, _, _, same⟩ := reloading_keeps_runs accepted
  exact ⟨reloaded, accepted, signless, again, same signless desk⟩

/-- A negative zero is saved as zero, and their texts differ. -/
theorem reloading_drops_sign :
    ofJson (noteJson (-0)) = .ok (note (-0)) ∧ ofJson (note (-0)).toJson = .ok (note 0) ∧
    ∃ report final table report' final' table',
      ((note (-0)).run desk).value = (.ok report, final) ∧
      report.get? "main" = some (.succeeded table) ∧
      table.column "note" = .ok [some (.text "-0")] ∧
      ((note 0).run desk).value = (.ok report', final') ∧
      report'.get? "main" = some (.succeeded table') ∧
      table'.column "note" = .ok [some (.text "0")] ∧ (table' == table) = false := by
  have accepted : ofJson (noteJson (-0)) = .ok (note (-0)) := ofJson_noteJson rfl
  refine ⟨accepted, ofJson_toJson (wellFormed_of_ofJson accepted), ?_⟩
  exact ⟨_, _, _, _, _, _, rfl, rfl, rfl, rfl, rfl, rfl, rfl⟩

end Program

end Tableflow
