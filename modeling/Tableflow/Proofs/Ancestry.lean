import Tableflow.Proofs.Replay

/-!
An outcome depends only on the ancestry of its pipeline. Two settled runs that share a pipeline with
all whom it waits for, directly or through others, give it the same turn.
-/

namespace Tableflow.Program

open Schedule

variable {p q : Program} {c d : Context} {producers producers' : OrderedMap String}
  {order order' : List Job} {report report' : Report} {final final' : Context}

/-! ### Two runs that share jobs -/

theorem lookup?_of_signal? {c : Context} {name : String} {table : Table}
    (found : c.signal? name = some table) : c.lookup? name = some table := by
  unfold Context.signal? at found
  rw [Context.lookup?, found, Option.some_or]

theorem lookup?_of_shared (settled : Settled p c producers order report final)
    (settled' : Settled q d producers' order' report' final') {job : Job} (member : job ∈ order)
    (member' : job ∈ order') (same : job.attempt report final = job.attempt report' final')
    (success : report.hasSucceeded job.name = true) {name : String}
    (published : name ∈ job.pipeline.signals) : final.lookup? name = final'.lookup? name := by
  rw [settled.hasSucceeded_eq member] at success
  rw [← Job.names_attempt_of_success success] at published
  obtain ⟨⟨_, table⟩, noted, rfl⟩ := List.mem_map.mp published
  rw [lookup?_of_signal? (settled.signal?_of_published member noted)]
  rw [same] at noted
  rw [lookup?_of_signal? (settled'.signal?_of_published member' noted)]

/-- Jobs that two runs share, with all their producers, have the same turns in both, if the external
tables they load are the same. -/
theorem attempt_eq_of_shared (settled : Settled p c producers order report final)
    (settled' : Settled q d producers' order' report' final') {Shared : Job → Prop}
    (present : ∀ job ∈ order, Shared job → job ∈ order')
    (closed : ∀ job ∈ order, Shared job → ∀ other ∈ order,
      (∃ need ∈ job.needs, need.producer = other.name) → Shared other)
    (external : ∀ job ∈ order, Shared job → ∀ name ∈ job.pipeline.inputs,
      (∀ producer, ¬ p.Notifies producer name) → c.lookup? name = d.lookup? name) :
    ∀ job ∈ order, Shared job → job.attempt report final = job.attempt report' final' := by
  -- along the order of the first run: the producers of a job have had equal turns in both
  refine settled.sequenced.induction ?_
  intro job member ih shared
  have member' := present job member shared
  have producer_turn : ∀ need ∈ job.needs, ∃ other ∈ order, other ∈ order' ∧
      other.name = need.producer ∧ need.signal ∈ other.pipeline.signals ∧
      other.attempt report final = other.attempt report' final' := by
    intro need waited
    obtain ⟨other, there, named, published⟩ := settled.listed.exists_producer member waited
    have inherited := closed job member shared other there ⟨need, waited, named.symm⟩
    exact ⟨other, there, present other there inherited, named, published,
      ih other there ⟨need, waited, named.symm⟩ inherited⟩
  apply Job.attempt_congr
  · intro need waited
    obtain ⟨other, there, there', named, _, same⟩ := producer_turn need waited
    rw [← named, settled.hasSucceeded_eq there, settled'.hasSucceeded_eq there', same]
  · intro met name loaded
    by_cases owned : ∃ producer, p.Notifies producer name
    · obtain ⟨producer, owner⟩ := owned
      have waited : (⟨name, producer⟩ : Dependency) ∈ job.needs :=
        (settled.listed.mem_needs member).mpr ⟨loaded, owner⟩
      obtain ⟨other, there, there', named, published, same⟩ := producer_turn _ waited
      exact lookup?_of_shared settled settled' there there' same (named ▸ met _ waited) published
    · rw [not_exists] at owned
      have owned' : ∀ producer, ¬ q.Notifies producer name := by
        intro producer owner
        have waited : (⟨name, producer⟩ : Dependency) ∈ job.needs :=
          (settled'.listed.mem_needs member').mpr ⟨loaded, owner⟩
        exact owned producer ((settled.listed.mem_needs member).mp waited).2
      rw [settled.lookup?_of_external owned, settled'.lookup?_of_external owned']
      exact external job member shared name loaded owned

/-! ### Ancestry -/

/-- The pipeline itself, its producers, their producers, and so on. -/
def Ancestor (p : Program) : String → String → Prop :=
  Relation.ReflTransGen fun consumer producer => producer ∈ p.awaited consumer

theorem dependenciesOf_congr {pipeline : Pipeline}
    (same : ∀ input ∈ pipeline.inputs, producers.get? input = producers'.get? input) :
    dependenciesOf producers pipeline = dependenciesOf producers' pipeline := by
  apply List.filterMap_congr
  intro input loaded
  rw [same input (Names.mem_distinct.mp loaded)]

theorem mem_of_ancestor (settled : Settled p c producers order report final)
    (settled' : Settled q d producers' order' report' final') {name : String}
    (ancestry : ∀ other, p.Ancestor name other ↔ q.Ancestor name other)
    (agree : ∀ other, p.Ancestor name other → p.pipelines.get? other = q.pipelines.get? other)
    {job : Job} (member : job ∈ order) (ancestor : p.Ancestor name job.name) : job ∈ order' := by
  have defined := settled.listed.pipeline job member
  obtain ⟨other, there, named, same⟩ :=
    settled'.listed.exists_job ((agree job.name ancestor).symm.trans defined)
  have owners : ∀ input ∈ job.pipeline.inputs, producers.get? input = producers'.get? input := by
    intro input loaded
    apply Option.ext
    intro producer
    rw [settled.listed.registered, settled'.listed.registered]
    constructor
    · rintro ⟨pipeline, found, published⟩
      have edge := (mem_awaited settled.unique).mpr
        ⟨job.pipeline, input, defined, loaded, pipeline, found, published⟩
      exact ⟨pipeline, (agree producer (ancestor.tail edge)).symm.trans found, published⟩
    · rintro ⟨pipeline, found, published⟩
      have defined' := (agree job.name ancestor).symm.trans defined
      have edge := (mem_awaited settled'.unique).mpr
        ⟨job.pipeline, input, defined', loaded, pipeline, found, published⟩
      have inherited := (ancestry producer).mpr (((ancestry job.name).mp ancestor).tail edge)
      exact ⟨pipeline, (agree producer inherited).trans found, published⟩
  have needs : other.needs = job.needs := by
    rw [settled.listed.needs job member, settled'.listed.needs other there, same]
    exact (dependenciesOf_congr owners).symm
  have equal : other = job := by
    cases other
    cases job
    exact Job.mk.injEq .. ▸ ⟨named, same, needs⟩
  exact equal ▸ there

theorem outcome_eq_of_ancestry (settled : Settled p c producers order report final)
    (settled' : Settled q c producers' order' report' final') {name : String}
    (known : name ∈ p.pipelines.keys)
    (ancestry : ∀ other, p.Ancestor name other ↔ q.Ancestor name other)
    (agree : ∀ other, p.Ancestor name other → p.pipelines.get? other = q.pipelines.get? other) :
    ∃ outcome, report.get? name = some outcome ∧ report'.get? name = some outcome := by
  obtain ⟨job, member, rfl⟩ := List.mem_map.mp (settled.listed.names.mem_iff.mpr known)
  have present : ∀ other ∈ order, p.Ancestor job.name other.name → other ∈ order' :=
    fun other there ancestor => mem_of_ancestor settled settled' ancestry agree there ancestor
  have closed : ∀ middle ∈ order, p.Ancestor job.name middle.name → ∀ other ∈ order,
      (∃ need ∈ middle.needs, need.producer = other.name) → p.Ancestor job.name other.name := by
    intro middle there ancestor other _ waited
    have edge := (settled.listed.dependsOn_iff there).mpr waited
    exact ancestor.tail ((mem_awaited settled.unique).mpr edge)
  have turn := attempt_eq_of_shared settled settled' present closed (fun _ _ _ _ _ _ => rfl)
    job member Relation.ReflTransGen.refl
  refine ⟨_, settled.outcome job member, ?_⟩
  rw [turn]
  exact settled'.outcome job (present job member Relation.ReflTransGen.refl)

/-! ### The same ancestry in another program -/

theorem DependsOn.of_agree {consumer producer : String} (edge : p.DependsOn consumer producer)
    (here : p.pipelines.get? consumer = q.pipelines.get? consumer)
    (there : p.pipelines.get? producer = q.pipelines.get? producer) :
    q.DependsOn consumer producer := by
  obtain ⟨pipeline, signal, defined, loaded, other, found, published⟩ := edge
  exact ⟨pipeline, signal, here ▸ defined, loaded, other, there ▸ found, published⟩

theorem DependsOn.consumer_mem {consumer producer : String} (edge : p.DependsOn consumer producer) :
    consumer ∈ p.pipelines.keys := by
  obtain ⟨_, _, defined, _⟩ := edge
  exact OrderedMap.mem_keys_of_get? defined

theorem ancestor_mem (settled : Settled p c producers order report final) {name other : String}
    (known : name ∈ p.pipelines.keys) (ancestor : p.Ancestor name other) :
    other ∈ p.pipelines.keys := by
  cases ancestor with
  | refl => exact known
  | tail _ edge => exact ((mem_awaited settled.unique).mp edge).producer_mem

/-- Pipelines that are no ancestors can be added or removed without changing the ancestry. -/
theorem ancestor_iff_of_extension (settled : Settled p c producers order report final)
    (settled' : Settled q c producers' order' report' final') {name : String}
    (extended : ∀ other ∈ p.pipelines.keys, p.pipelines.get? other = q.pipelines.get? other)
    (unrelated : ∀ other, q.Ancestor name other → other ∈ p.pipelines.keys) (other : String) :
    p.Ancestor name other ↔ q.Ancestor name other := by
  constructor
  · intro ancestor
    induction ancestor with
    | refl => exact Relation.ReflTransGen.refl
    | tail _ edge ih =>
      have edge := (mem_awaited settled.unique).mp edge
      have here := extended _ edge.consumer_mem
      have there := extended _ edge.producer_mem
      exact ih.tail ((mem_awaited settled'.unique).mpr (edge.of_agree here there))
  · intro ancestor
    induction ancestor with
    | refl => exact Relation.ReflTransGen.refl
    | tail path edge ih =>
      have here := (extended _ (unrelated _ path)).symm
      have there := (extended _ (unrelated _ (path.tail edge))).symm
      have edge := ((mem_awaited settled'.unique).mp edge).of_agree here there
      exact ih.tail ((mem_awaited settled.unique).mpr edge)

theorem get?_eq_of_perm (perm : p.pipelines.entries.Perm q.pipelines.entries) (name : String) :
    p.pipelines.get? name = q.pipelines.get? name := by
  apply Option.ext
  intro pipeline
  rw [OrderedMap.get?_eq_some_iff, OrderedMap.get?_eq_some_iff]
  exact perm.mem_iff

theorem outcome_eq_of_extension (settled : Settled p c producers order report final)
    (settled' : Settled q c producers' order' report' final') {name : String}
    (known : name ∈ p.pipelines.keys)
    (extended : ∀ other ∈ p.pipelines.keys, p.pipelines.get? other = q.pipelines.get? other)
    (unrelated : ∀ other, q.Ancestor name other → other ∈ p.pipelines.keys) :
    ∃ outcome, report.get? name = some outcome ∧ report'.get? name = some outcome := by
  refine outcome_eq_of_ancestry settled settled' known
    (ancestor_iff_of_extension settled settled' extended unrelated) ?_
  intro other ancestor
  exact extended other (ancestor_mem settled known ancestor)

theorem outcome_eq_of_perm (settled : Settled p c producers order report final)
    (settled' : Settled q c producers' order' report' final') {name : String}
    (known : name ∈ p.pipelines.keys) (perm : p.pipelines.entries.Perm q.pipelines.entries) :
    ∃ outcome, report.get? name = some outcome ∧ report'.get? name = some outcome := by
  have keys := perm.map Prod.fst
  refine outcome_eq_of_extension settled settled' known
    (fun other _ => get?_eq_of_perm perm other) ?_
  intro other ancestor
  exact keys.mem_iff.mpr (ancestor_mem settled' (keys.mem_iff.mp known) ancestor)

/-- The outcome of a pipeline is decided by the pipelines of its ancestry. So the order of
definition and pipelines outside the ancestry make no difference to it. -/
theorem outcome_depends_on_ancestry {p q : Program} {c final final' : Context}
    {report report' : Report} (ran : (p.run c).value = (.ok report, final))
    (ran' : (q.run c).value = (.ok report', final')) :
    (∀ name ∈ p.pipelines.keys, name ∈ q.pipelines.keys →
      (∀ other, p.Ancestor name other ↔ q.Ancestor name other) →
      (∀ other, p.Ancestor name other → p.pipelines.get? other = q.pipelines.get? other) →
      ∃ outcome, report.get? name = some outcome ∧ report'.get? name = some outcome) ∧
    (p.pipelines.entries.Perm q.pipelines.entries → ∀ name ∈ p.pipelines.keys,
      ∃ outcome, report.get? name = some outcome ∧ report'.get? name = some outcome) ∧
    ((∀ other ∈ p.pipelines.keys, p.pipelines.get? other = q.pipelines.get? other) →
      ∀ name ∈ p.pipelines.keys, (∀ other, q.Ancestor name other → other ∈ p.pipelines.keys) →
        ∃ outcome, report.get? name = some outcome ∧ report'.get? name = some outcome) := by
  obtain ⟨producers, order, settled⟩ := settled_of_run ran
  obtain ⟨producers', order', settled'⟩ := settled_of_run ran'
  refine ⟨?_, ?_, ?_⟩
  · intro name known _ ancestry agree
    exact outcome_eq_of_ancestry settled settled' known ancestry agree
  · intro perm name known
    exact outcome_eq_of_perm settled settled' known perm
  · intro extended name known unrelated
    exact outcome_eq_of_extension settled settled' known extended unrelated

theorem ancestor_iff_of_single {name producer : String} (direct : p.awaited name = [producer])
    (first : p.awaited producer = []) (other : String) :
    p.Ancestor name other ↔ other = name ∨ other = producer := by
  constructor
  · intro ancestor
    rcases Relation.ReflTransGen.cases_head ancestor with same | ⟨middle, edge, path⟩
    · exact Or.inl same.symm
    · rw [direct, List.mem_singleton] at edge
      subst edge
      rcases Relation.ReflTransGen.cases_head path with same | ⟨_, edge, _⟩
      · exact Or.inr same.symm
      · rw [first] at edge
        exact absurd edge List.not_mem_nil
  · rintro (rfl | rfl)
    · exact Relation.ReflTransGen.refl
    · exact Relation.ReflTransGen.single (by rw [direct]; exact List.mem_singleton_self _)

/-- Two of the pipelines of `mixed`, defined the other way round. -/
def matched : Program :=
  ⟨.ofList [("keep", ⟨[.read "orders", .notify "kept"]⟩),
    ("total", ⟨[.read "kept", .select ["item"]]⟩)]⟩

theorem outcome_depends_on_ancestry_mixed :
    ∃ report final report' final', (matched.run shelf).value = (.ok report, final) ∧
      (mixed.run shelf).value = (.ok report', final') ∧
      (∀ other, matched.Ancestor "total" other ↔ mixed.Ancestor "total" other) ∧
      ∃ outcome, report.get? "total" = some outcome ∧ report'.get? "total" = some outcome := by
  have waits : matched.awaited "total" = ["keep"] := rfl
  have waits' : mixed.awaited "total" = ["keep"] := rfl
  have here := ancestor_iff_of_single waits rfl
  have there := ancestor_iff_of_single waits' rfl
  have ancestry := fun other => (here other).trans (there other).symm
  refine ⟨_, _, _, _, rfl, rfl, ancestry, ?_⟩
  refine (outcome_depends_on_ancestry (c := shelf) rfl rfl).1 "total" (by decide) (by decide)
    ancestry ?_
  intro other ancestor
  rcases (here other).mp ancestor with rfl | rfl
  · rfl
  · rfl

end Tableflow.Program
