import Mathlib.Data.List.Nodup
import Mathlib.Logic.Relation
import Tableflow.Program.Schedule

/-!
The dependency graph of a program. `DependsOn` says in words of the pipelines who waits for whom;
the registration of signals refuses exactly the programs that publish one twice, and the jobs of all
others carry the edges of that graph.
-/

namespace Tableflow.Program

/-! ### The graph -/

/-- The signals of all pipelines, in order of definition and of stages. -/
def signals (p : Program) : List String := p.pipelines.values.flatMap Pipeline.signals

/-- The pipeline called `name` publishes `signal`. -/
def Notifies (p : Program) (name signal : String) : Prop :=
  ∃ pipeline, p.pipelines.get? name = some pipeline ∧ signal ∈ pipeline.signals

/-- `consumer` reads or joins a name that `producer` publishes. -/
def DependsOn (p : Program) (consumer producer : String) : Prop :=
  ∃ pipeline signal, p.pipelines.get? consumer = some pipeline ∧ signal ∈ pipeline.inputs ∧
    p.Notifies producer signal

/-- No pipeline waits for itself, not even through others. -/
def Acyclic (p : Program) : Prop := ∀ name, ¬ Relation.TransGen p.DependsOn name name

/-- Whom a pipeline waits for by its computed dependencies. -/
def awaited (p : Program) (name : String) : List String :=
  match p.dependencies with
  | .ok dependencies => ((dependencies.get? name).getD []).map Dependency.producer
  | .error _ => []

theorem DependsOn.producer_mem {p : Program} {consumer producer : String}
    (edge : p.DependsOn consumer producer) : producer ∈ p.pipelines.keys := by
  obtain ⟨_, _, _, _, _, found, _⟩ := edge
  exact OrderedMap.mem_keys_of_get? found

theorem names_notices (p : Program) : p.notices.map Prod.fst = p.signals := by
  simp [notices, signals, OrderedMap.values, List.map_flatMap, List.flatMap_map, Function.comp_def]

theorem mem_notices {p : Program} {signal name : String} :
    (signal, name) ∈ p.notices ↔ p.Notifies name signal := by
  simp only [notices, List.mem_flatMap, List.mem_map, Prod.mk.injEq, Prod.exists, Notifies,
    OrderedMap.get?_eq_some_iff]
  constructor
  · rintro ⟨_, pipeline, defined, _, published, rfl, rfl⟩
    exact ⟨pipeline, defined, published⟩
  · rintro ⟨pipeline, defined, published⟩
    exact ⟨name, pipeline, defined, signal, published, rfl, rfl⟩

theorem mem_signals {p : Program} {signal : String} :
    signal ∈ p.signals ↔ ∃ name, p.Notifies name signal := by
  simp only [← names_notices, List.mem_map, Prod.exists, exists_and_right, exists_eq_right,
    mem_notices]

/-! ### Registration of signals -/

/-- The first notice that repeats a signal: `second` publishes what `first` has published, and up to
there no signal came twice. -/
def Repeats (p : Program) (signal first second : String) : Prop :=
  ∃ before after, p.notices = before ++ (signal, second) :: after ∧
    (signal, first) ∈ before ∧ (before.map Prod.fst).Nodup

theorem register_cases (known : OrderedMap String) (notices : List (String × String)) :
    (∃ producers, register known notices = .ok producers ∧
      producers.entries = known.entries ++ notices) ∨
    (∃ before signal first second after, notices = before ++ (signal, second) :: after ∧
      (signal, first) ∈ known.entries ++ before ∧
      ((known.entries ++ before).map Prod.fst).Nodup ∧
      register known notices = .error (.duplicateSignal signal first second)) := by
  induction notices generalizing known with
  | nil => exact Or.inl ⟨known, rfl, (List.append_nil _).symm⟩
  | cons notice rest ih =>
    obtain ⟨signal, name⟩ := notice
    cases found : known.get? signal with
    | some first =>
      have here := OrderedMap.get?_eq_some_iff.mp found
      exact Or.inr ⟨[], signal, first, name, rest, rfl, by simpa using here,
        by simpa using known.distinct, by simp [register, found]⟩
    | none =>
      have grown := OrderedMap.entries_insert_of_fresh name (OrderedMap.get?_eq_none_iff.mp found)
      have next : register known ((signal, name) :: rest) =
          register (known.insert signal name) rest := by
        simp [register, found]
      rw [next]
      rcases ih (known.insert signal name) with ⟨producers, kept, entries⟩ | stopped
      · exact Or.inl ⟨producers, kept, by rw [entries, grown, List.append_assoc]; rfl⟩
      · obtain ⟨before, other, first, second, after, split, earlier, distinct, refused⟩ := stopped
        rw [grown, List.append_assoc] at earlier distinct
        exact Or.inr ⟨(signal, name) :: before, other, first, second, after, by rw [split]; rfl,
          earlier, distinct, refused⟩

theorem producers_of_nodup {p : Program} (unique : p.signals.Nodup) :
    ∃ producers, p.producers = .ok producers ∧ producers.entries = p.notices := by
  rcases register_cases .empty p.notices with kept | stopped
  · exact kept
  · obtain ⟨before, signal, first, second, after, split, earlier, _, _⟩ := stopped
    rw [← names_notices, split, List.map_append, List.map_cons, List.nodup_append] at unique
    have again : signal ∈ before.map Prod.fst := List.mem_map.mpr ⟨(signal, first), earlier, rfl⟩
    exact absurd rfl (unique.2.2 signal again signal List.mem_cons_self)

theorem producers_of_repeat {p : Program} (repeated : ¬ p.signals.Nodup) :
    ∃ signal first second, p.Repeats signal first second ∧
      p.producers = .error (.duplicateSignal signal first second) := by
  rcases register_cases .empty p.notices with kept | stopped
  · obtain ⟨producers, _, entries⟩ := kept
    have distinct := producers.distinct
    rw [entries] at distinct
    exact absurd (names_notices p ▸ distinct) repeated
  · obtain ⟨before, signal, first, second, after, split, earlier, distinct, refused⟩ := stopped
    exact ⟨signal, first, second, ⟨before, after, split, earlier, distinct⟩, refused⟩

theorem registered_iff {p : Program} {producers : OrderedMap String}
    (entries : producers.entries = p.notices) {signal name : String} :
    producers.get? signal = some name ↔ p.Notifies name signal := by
  rw [OrderedMap.get?_eq_some_iff, entries, mem_notices]

/-! ### Jobs -/

/-- `jobs` are the pipelines of a program, in some order, each with the producers of its inputs. -/
structure JobsOf (p : Program) (producers : OrderedMap String) (jobs : List Job) : Prop where
  registered : ∀ signal name, producers.get? signal = some name ↔ p.Notifies name signal
  names : (jobs.map Job.name).Perm p.pipelines.keys
  signals : (jobs.flatMap fun job => job.pipeline.signals).Perm p.signals
  pipeline : ∀ job ∈ jobs, p.pipelines.get? job.name = some job.pipeline
  needs : ∀ job ∈ jobs, job.needs = dependenciesOf producers job.pipeline

theorem mem_dependenciesOf {producers : OrderedMap String} {pipeline : Pipeline}
    {need : Dependency} :
    need ∈ dependenciesOf producers pipeline ↔
      need.signal ∈ pipeline.inputs ∧ producers.get? need.signal = some need.producer := by
  simp only [dependenciesOf, List.mem_filterMap, Names.mem_distinct, Option.map_eq_some_iff]
  constructor
  · rintro ⟨input, loaded, producer, found, rfl⟩
    exact ⟨loaded, found⟩
  · rintro ⟨loaded, found⟩
    exact ⟨need.signal, loaded, need.producer, found, rfl⟩

namespace JobsOf

variable {p : Program} {producers : OrderedMap String} {jobs : List Job}

theorem perm {others : List Job} (listed : p.JobsOf producers jobs) (same : others.Perm jobs) :
    p.JobsOf producers others where
  registered := listed.registered
  names := (same.map Job.name).trans listed.names
  signals := (same.flatMap_right _).trans listed.signals
  pipeline := fun job member => listed.pipeline job (same.mem_iff.mp member)
  needs := fun job member => listed.needs job (same.mem_iff.mp member)

theorem nodup_names (listed : p.JobsOf producers jobs) : (jobs.map Job.name).Nodup :=
  listed.names.nodup_iff.mpr p.pipelines.nodup_keys

theorem eq_of_name_eq (listed : p.JobsOf producers jobs) {job other : Job} (here : job ∈ jobs)
    (there : other ∈ jobs) (same : job.name = other.name) : job = other :=
  List.inj_on_of_nodup_map listed.nodup_names here there same

theorem find?_name (listed : p.JobsOf producers jobs) {job : Job} (member : job ∈ jobs) :
    jobs.find? (fun other => other.name = job.name) = some job := by
  cases found : jobs.find? fun other => other.name = job.name with
  | none =>
    have missed := List.find?_eq_none.mp found job member
    simp at missed
  | some other =>
    have named : other.name = job.name := by simpa using List.find?_some found
    rw [listed.eq_of_name_eq (List.mem_of_find?_eq_some found) member named]

theorem absent_of_split (listed : p.JobsOf producers jobs) {front back : List Job}
    (split : jobs = front ++ back) {name : String} (here : name ∈ front.map Job.name) :
    name ∉ back.map Job.name := by
  have apart := listed.nodup_names
  rw [split, List.map_append, List.nodup_append] at apart
  exact fun there => apart.2.2 name here name there rfl

theorem exists_job (listed : p.JobsOf producers jobs) {name : String} {pipeline : Pipeline}
    (defined : p.pipelines.get? name = some pipeline) :
    ∃ job ∈ jobs, job.name = name ∧ job.pipeline = pipeline := by
  have known := listed.names.mem_iff.mpr (OrderedMap.mem_keys_of_get? defined)
  obtain ⟨job, member, rfl⟩ := List.mem_map.mp known
  exact ⟨job, member, rfl, Option.some.inj ((listed.pipeline job member).symm.trans defined)⟩

theorem mem_needs (listed : p.JobsOf producers jobs) {job : Job} (member : job ∈ jobs)
    {need : Dependency} : need ∈ job.needs ↔
      need.signal ∈ job.pipeline.inputs ∧ p.Notifies need.producer need.signal := by
  rw [listed.needs job member, mem_dependenciesOf, listed.registered]

theorem exists_producer (listed : p.JobsOf producers jobs) {job : Job} (member : job ∈ jobs)
    {need : Dependency} (waited : need ∈ job.needs) :
    ∃ other ∈ jobs, other.name = need.producer ∧ need.signal ∈ other.pipeline.signals := by
  obtain ⟨_, pipeline, defined, published⟩ := (listed.mem_needs member).mp waited
  obtain ⟨other, there, named, rfl⟩ := listed.exists_job defined
  exact ⟨other, there, named, published⟩

theorem producer_unique (listed : p.JobsOf producers jobs) {name other signal : String}
    (here : p.Notifies name signal) (there : p.Notifies other signal) : name = other := by
  have found := (listed.registered signal name).mpr here
  rw [(listed.registered signal other).mpr there] at found
  exact (Option.some.inj found).symm

theorem dependsOn_iff (listed : p.JobsOf producers jobs) {job : Job} (member : job ∈ jobs)
    {producer : String} :
    p.DependsOn job.name producer ↔ ∃ need ∈ job.needs, need.producer = producer := by
  constructor
  · rintro ⟨pipeline, signal, defined, loaded, published⟩
    rw [listed.pipeline job member] at defined
    obtain rfl := Option.some.inj defined
    exact ⟨⟨signal, producer⟩, (listed.mem_needs member).mpr ⟨loaded, published⟩, rfl⟩
  · rintro ⟨need, waited, rfl⟩
    obtain ⟨loaded, published⟩ := (listed.mem_needs member).mp waited
    exact ⟨job.pipeline, need.signal, listed.pipeline job member, loaded, published⟩

end JobsOf

theorem jobs_of_producers {p : Program} {producers : OrderedMap String}
    (kept : p.producers = .ok producers) (entries : producers.entries = p.notices) :
    ∃ jobs, p.jobs = .ok jobs ∧ jobs.map Job.name = p.pipelines.keys ∧ p.JobsOf producers jobs := by
  refine ⟨_, by rw [jobs, kept]; rfl, ?names, ?registered, ?perm, ?signals, ?pipeline, ?needs⟩
  case names => simp [OrderedMap.keys, Function.comp_def]
  case registered => exact fun signal name => registered_iff entries
  case perm => simp [OrderedMap.keys, Function.comp_def]
  case signals => simp [signals, OrderedMap.values, List.flatMap_map]
  case pipeline =>
    intro job member
    obtain ⟨entry, defined, rfl⟩ := List.mem_map.mp member
    exact OrderedMap.get?_eq_some_iff.mpr defined
  case needs =>
    intro job member
    obtain ⟨entry, _, rfl⟩ := List.mem_map.mp member
    rfl

/-- The computed dependencies are the edges of the graph. -/
theorem mem_awaited {p : Program} (unique : p.signals.Nodup) {consumer producer : String} :
    producer ∈ p.awaited consumer ↔ p.DependsOn consumer producer := by
  obtain ⟨producers, kept, entries⟩ := producers_of_nodup unique
  have computed : p.dependencies = .ok (p.pipelines.map (dependenciesOf producers)) := by
    rw [dependencies, kept]
    rfl
  simp only [awaited, computed, OrderedMap.get?_map]
  cases defined : p.pipelines.get? consumer with
  | none => simp [DependsOn, defined]
  | some pipeline =>
    simp only [Option.map_some, Option.getD_some, List.mem_map, mem_dependenciesOf,
      registered_iff entries]
    constructor
    · rintro ⟨need, ⟨loaded, published⟩, rfl⟩
      exact ⟨pipeline, need.signal, defined, loaded, published⟩
    · rintro ⟨other, signal, again, loaded, published⟩
      obtain rfl := Option.some.inj (defined.symm.trans again)
      exact ⟨⟨signal, producer⟩, ⟨loaded, published⟩, rfl⟩

end Tableflow.Program
