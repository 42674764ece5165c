import Mathlib.Data.List.Lex
import Tableflow.Proofs.Circle

/-!
The order of a run. An order made by always taking the earliest defined ready job is a sequence of
all jobs with producers first, the least such sequence by place of definition, and only a circle of
pipelines that wait for each other leaves no job ready.
-/

namespace Tableflow

namespace Program

open Schedule

variable {p : Program} {producers : OrderedMap String} {jobs order : List Job}

/-! ### Order or circle -/

theorem idxOf_lt_of_dependsOn (listed : p.JobsOf producers order) (sequenced : Sequenced order)
    {consumer producer : String} (edge : p.DependsOn consumer producer) :
    (order.map Job.name).idxOf producer < (order.map Job.name).idxOf consumer := by
  obtain ⟨pipeline, _, defined, _⟩ := id edge
  obtain ⟨job, member, rfl, _⟩ := listed.exists_job defined
  obtain ⟨need, waited, rfl⟩ := (listed.dependsOn_iff member).mp edge
  obtain ⟨before, after, split⟩ := List.append_of_mem member
  obtain ⟨fresh, met⟩ := isReady_iff.mp (sequenced before job after split)
  have earlier := met need waited
  rw [split, List.map_append, List.idxOf_append_of_mem earlier, List.idxOf_append_of_notMem fresh]
  exact Nat.lt_of_lt_of_le (List.idxOf_lt_length_of_mem earlier) (Nat.le_add_right _ _)

theorem acyclic_of_sequenced (listed : p.JobsOf producers order) (sequenced : Sequenced order) :
    p.Acyclic := by
  intro name circle
  have descends : ∀ {first last}, Relation.TransGen p.DependsOn first last →
      (order.map Job.name).idxOf last < (order.map Job.name).idxOf first := by
    intro first last path
    induction path with
    | single edge => exact idxOf_lt_of_dependsOn listed sequenced edge
    | tail _ edge ih => exact (idxOf_lt_of_dependsOn listed sequenced edge).trans ih
  exact Nat.lt_irrefl _ (descends circle)

theorem schedule_cases (unique : p.signals.Nodup) :
    ∃ producers jobs, jobs.map Job.name = p.pipelines.keys ∧ p.JobsOf producers jobs ∧
      ((p.Acyclic ∧ ∃ order, p.schedule = .ok order ∧ Greedy jobs order ∧ order.Perm jobs) ∨
        (¬ p.Acyclic ∧ ∃ path, p.schedule = .error (.cycle path))) := by
  obtain ⟨producers, kept, entries⟩ := producers_of_nodup unique
  obtain ⟨jobs, made, names, listed⟩ := jobs_of_producers kept entries
  have scheduled := schedule_of_jobs made
  refine ⟨producers, jobs, names, listed, ?_⟩
  rcases order_cases listed.nodup_names with ⟨order, ordered, greedy, perm⟩ | ⟨stuck, refused, _, short, idle⟩
  · exact Or.inl ⟨acyclic_of_sequenced (listed.perm perm) greedy.sequenced, order,
      scheduled.trans ordered, greedy, perm⟩
  · exact Or.inr ⟨(isCircle_findCycle listed short idle).not_acyclic, _, scheduled.trans refused⟩

/-! ### The least order -/

/-- The first pipeline is defined before the second. -/
def DefinedBefore (p : Program) (first second : String) : Prop :=
  p.pipelines.keys.idxOf first < p.pipelines.keys.idxOf second

/-- All pipelines in a sequence in which producers stand before those that wait for them. -/
structure IsRunOrder (p : Program) (names : List String) : Prop where
  perm : names.Perm p.pipelines.keys
  producers_first : ∀ before name after, names = before ++ name :: after →
    ∀ producer, p.DependsOn name producer → producer ∈ before

/-- The pipeline is not among `before`, and all whom it waits for are. -/
structure ReadyAfter (p : Program) (before : List String) (name : String) : Prop where
  defined : name ∈ p.pipelines.keys
  pending : name ∉ before
  met : ∀ producer, p.DependsOn name producer → producer ∈ before

theorem split_names {before after : List String} {name : String}
    (split : order.map Job.name = before ++ name :: after) :
    ∃ front job back, order = front ++ job :: back ∧ front.map Job.name = before ∧
      job.name = name := by
  obtain ⟨front, rest, whole, first, second⟩ := List.map_eq_append_iff.mp split
  obtain ⟨job, back, cut, named, _⟩ := List.map_eq_cons_iff.mp second
  exact ⟨front, job, back, by rw [whole, cut], first, named⟩

theorem isReady_of_readyAfter (listed : p.JobsOf producers jobs) {front : List Job} {job : Job}
    (member : job ∈ jobs) (ready : p.ReadyAfter (front.map Job.name) job.name) :
    isReady front job = true := by
  refine isReady_iff.mpr ⟨ready.pending, ?_⟩
  intro need waited
  exact ready.met need.producer ((listed.dependsOn_iff member).mpr ⟨need, waited, rfl⟩)

/-- The job that is taken is defined before all others that are ready. -/
theorem earliest_of_found (names : jobs.map Job.name = p.pipelines.keys)
    (listed : p.JobsOf producers jobs) {front : List Job} {job : Job}
    (found : jobs.find? (isReady front) = some job) {other : String}
    (ready : p.ReadyAfter (front.map Job.name) other) :
    other = job.name ∨ p.DefinedBefore job.name other := by
  have known := ready.defined
  rw [← names] at known
  obtain ⟨rival, member, rfl⟩ := List.mem_map.mp known
  obtain ⟨_, passed, behind, split, unready⟩ := List.find?_eq_some_iff_append.mp found
  have split' : jobs = (passed ++ [job]) ++ behind := by simp [split]
  have taken : job.name ∉ passed.map Job.name :=
    fun here => listed.absent_of_split split here (by simp)
  rw [DefinedBefore, ← names]
  rw [split, List.mem_append, List.mem_cons] at member
  rcases member with skipped | rfl | later
  · have refused := unready rival skipped
    rw [isReady_of_readyAfter listed (by simp [split, skipped]) ready] at refused
    exact absurd refused (by decide)
  · exact Or.inl rfl
  · have there := List.mem_map_of_mem (f := Job.name) later
    have absent : rival.name ∉ passed.map Job.name :=
      fun here => listed.absent_of_split split here (List.mem_cons_of_mem _ there)
    have differs : job.name ≠ rival.name :=
      fun same => listed.absent_of_split split' (by simp [← same]) there
    rw [split, List.map_append, List.map_cons, List.idxOf_append_of_notMem taken,
      List.idxOf_append_of_notMem absent, List.idxOf_cons_self, List.idxOf_cons_ne _ differs]
    exact Or.inr (by omega)

theorem isRunOrder_of_sequenced (listed : p.JobsOf producers order) (sequenced : Sequenced order) :
    p.IsRunOrder (order.map Job.name) := by
  refine ⟨listed.names, ?_⟩
  intro before name after split producer edge
  obtain ⟨front, job, back, whole, rfl, rfl⟩ := split_names split
  have member : job ∈ order := by simp [whole]
  obtain ⟨need, waited, rfl⟩ := (listed.dependsOn_iff member).mp edge
  exact (isReady_iff.mp (sequenced front job back whole)).2 need waited

theorem lex_of_common (names : jobs.map Job.name = p.pipelines.keys)
    (listed : p.JobsOf producers jobs) (greedy : Greedy jobs order) {other : List String}
    (valid : p.IsRunOrder other) (length : (order.map Job.name).length = other.length)
    (rest : List String) {common rest' : List String}
    (split : order.map Job.name = common ++ rest) (split' : other = common ++ rest') :
    rest = rest' ∨ List.Lex p.DefinedBefore rest rest' := by
  have same : rest.length = rest'.length := by
    rw [split, split', List.length_append, List.length_append] at length
    omega
  induction rest generalizing common rest' with
  | nil => exact Or.inl (List.eq_nil_of_length_eq_zero same.symm).symm
  | cons name rest ih =>
    obtain ⟨name', rest', rfl⟩ := List.exists_cons_of_length_eq_add_one same.symm
    by_cases agree : name = name'
    · subst agree
      have onward : order.map Job.name = common ++ [name] ++ rest := by simp [split]
      have onward' : other = common ++ [name] ++ rest' := by simp [split']
      rcases ih onward onward' (by simpa using same) with equal | less
      · exact Or.inl (by rw [equal])
      · exact Or.inr (List.Lex.cons less)
    · -- the other sequence goes on with a pipeline that was ready here too
      have ready : p.ReadyAfter common name' := by
        refine ⟨valid.perm.mem_iff.mp (by simp [split']), ?_, valid.producers_first _ _ _ split'⟩
        intro here
        have apart := valid.perm.nodup_iff.mpr p.pipelines.nodup_keys
        rw [split', List.nodup_append] at apart
        exact apart.2.2 name' here name' List.mem_cons_self rfl
      obtain ⟨front, job, back, whole, rfl, rfl⟩ := split_names split
      rcases earliest_of_found names listed (greedy front job back whole) ready with equal | less
      · exact absurd equal.symm agree
      · exact Or.inr (List.Lex.rel less)

/-- There is an order exactly if nobody waits in a circle. It holds all pipelines with producers
first, it is the least such sequence by place of definition, and at every place it takes the
earliest defined pipeline that is ready. -/
theorem runOrder_least_iff_acyclic {p : Program} (unique : p.signals.Nodup) :
    ((∃ order, p.runOrder = .ok order) ↔ p.Acyclic) ∧
      ∀ order, p.runOrder = .ok order →
        p.IsRunOrder order ∧
        (∀ other, p.IsRunOrder other → order = other ∨ List.Lex p.DefinedBefore order other) ∧
        ∀ before name after, order = before ++ name :: after →
          ∀ other, p.ReadyAfter before other → other = name ∨ p.DefinedBefore name other := by
  obtain ⟨producers, jobs, names, listed, possible | circular⟩ := schedule_cases unique
  · obtain ⟨acyclic, schedule, made, greedy, perm⟩ := possible
    have ordered : p.runOrder = .ok (schedule.map Job.name) := by
      rw [runOrder, made]
      rfl
    have valid := isRunOrder_of_sequenced (listed.perm perm) greedy.sequenced
    refine ⟨⟨fun _ => acyclic, fun _ => ⟨_, ordered⟩⟩, ?_⟩
    intro order returned
    obtain rfl := Except.ok.inj (ordered.symm.trans returned)
    refine ⟨valid, ?_, ?_⟩
    · intro other rival
      have length := (valid.perm.trans rival.perm.symm).length_eq
      exact lex_of_common names listed greedy rival length _ (List.nil_append _).symm
        (List.nil_append _).symm
    · intro before name after split other ready
      obtain ⟨front, job, back, whole, rfl, rfl⟩ := split_names split
      exact earliest_of_found names listed (greedy front job back whole) ready
  · obtain ⟨cyclic, path, refused⟩ := circular
    have none : ∀ order, p.runOrder ≠ .ok order := by
      intro order returned
      rw [runOrder, refused] at returned
      cases returned
    exact ⟨⟨fun ⟨order, returned⟩ => absurd returned (none order),
      fun acyclic => absurd acyclic cyclic⟩, fun order returned => absurd returned (none order)⟩

/-- A report defined before the two pipelines it waits for, and one that waits for nobody. -/
def relay : Program :=
  ⟨.ofList [("report", ⟨[.join "left" "key" "right" "key"]⟩), ("alone", ⟨[.read "orders"]⟩),
    ("second", ⟨[.read "orders", .notify "right"]⟩), ("first", ⟨[.read "orders", .notify "left"]⟩)]⟩

theorem runOrder_least_relay :
    relay.signals.Nodup ∧ relay.runOrder = .ok ["alone", "second", "first", "report"] ∧
      relay.Acyclic ∧ relay.IsRunOrder ["alone", "second", "first", "report"] := by
  have unique : relay.signals.Nodup := by decide
  have returned : relay.runOrder = .ok ["alone", "second", "first", "report"] := rfl
  obtain ⟨possible, least⟩ := runOrder_least_iff_acyclic unique
  exact ⟨unique, returned, possible.mp ⟨_, returned⟩, (least _ returned).1⟩

end Program

end Tableflow
