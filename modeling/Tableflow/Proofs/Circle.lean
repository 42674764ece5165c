import Mathlib.Data.List.Chain
import Tableflow.Proofs.Dependencies
import Tableflow.Proofs.Orders

/-!
Circles of pipelines. When no job is ready and some are left, each of these waits for another of
them, so the walk along pending producers comes back to a name of its own path, and what it gives is
a circle of the graph.
-/

namespace Tableflow

namespace Schedule

/-- The search for a circle without a bound on its turns, as far as it comes back: `path` ends in
`current`, and the pending producer of `current` is on the path already, or the search goes on from
there. No rule covers a name without a pending producer. -/
inductive Closes (jobs order : List Job) : (path : List String) → (current : String) →
    (circle : List String) → Prop
  | back {path current next} : blocker? jobs (marks jobs order) current = some next → next ∈ path →
      Closes jobs order path current (path.dropWhile (fun name => name ≠ next) ++ [next])
  | onward {path current next circle} : blocker? jobs (marks jobs order) current = some next →
      next ∉ path →
      Closes jobs order (path ++ [next]) next circle → Closes jobs order path current circle

/-- A path of the search: pending jobs, each once, each followed by its first pending producer. -/
structure Trail (jobs order : List Job) (path : List String) (current : String) : Prop where
  last : path.getLast? = some current
  steps : path.IsChain fun name next => blocker? jobs (marks jobs order) name = some next
  distinct : path.Nodup
  pending : ∀ name ∈ path, isPending jobs (marks jobs order) name = true

variable {jobs order : List Job} {done : List Bool} {path : List String} {current next : String}

theorem isChain_concat {R : String → String → Prop} (steps : path.IsChain R)
    (last : path.getLast? = some current) (step : R current next) : (path ++ [next]).IsChain R := by
  refine steps.append (List.isChain_singleton _) ?_
  intro name here other there
  rw [last, Option.mem_some_iff] at here
  rw [List.head?_cons, Option.mem_some_iff] at there
  rw [← here, ← there]
  exact step

theorem mem_of_isPending {name : String} (pending : isPending jobs done name = true) :
    name ∈ jobs.map Job.name := by
  obtain ⟨entry, found, -⟩ := (Option.any_eq_true _ _).mp pending
  have named : entry.1.name = name := by simpa using List.find?_some found
  exact List.mem_map.mpr ⟨entry.1, (List.of_mem_zip (List.mem_of_find?_eq_some found)).1, named⟩

theorem isPending_iff {name : String} : isPending jobs (marks jobs order) name = true ↔
    name ∈ jobs.map Job.name ∧ name ∉ order.map Job.name := by
  have searched : (jobs.zip (marks jobs order)).find? (fun entry => entry.1.name = name) =
      (jobs.find? fun job => job.name = name).map fun job =>
        (job, order.any fun done => done.name = job.name) := by
    rw [zip_marks, List.find?_map]
    rfl
  constructor
  · intro pending
    refine ⟨mem_of_isPending pending, ?_⟩
    rw [isPending, searched] at pending
    obtain ⟨entry, mapped, unmarked⟩ := (Option.any_eq_true _ _).mp pending
    obtain ⟨job, found, rfl⟩ := Option.map_eq_some_iff.mp mapped
    have named : job.name = name := by simpa using List.find?_some found
    simpa [named] using unmarked
  · rintro ⟨known, missing⟩
    obtain ⟨job, here, rfl⟩ := List.mem_map.mp known
    obtain ⟨first, found⟩ : ∃ first, jobs.find? (fun other => other.name = job.name) = some first :=
      Option.isSome_iff_exists.mp (List.find?_isSome.mpr ⟨job, here, by simp⟩)
    have named : first.name = job.name := by simpa using List.find?_some found
    rw [isPending, searched, found]
    simpa [named] using missing

theorem blocker?_cases (found : blocker? jobs done current = some next) :
    isPending jobs done next = true ∧
      ∃ job ∈ jobs, job.name = current ∧ ∃ need ∈ job.needs, need.producer = next := by
  unfold blocker? at found
  split at found
  · rename_i job here
    have named : job.name = current := by simpa using List.find?_some here
    obtain ⟨need, waited, same⟩ := List.mem_map.mp (List.mem_of_find?_eq_some found)
    exact ⟨List.find?_some found, job, List.mem_of_find?_eq_some here, named, need, waited, same⟩
  · cases found

theorem trail_single (pending : isPending jobs (marks jobs order) current = true) :
    Trail jobs order [current] current :=
  ⟨rfl, List.isChain_singleton _, List.nodup_singleton _, by simpa using pending⟩

theorem Trail.onward (trail : Trail jobs order path current)
    (found : blocker? jobs (marks jobs order) current = some next) (fresh : next ∉ path) :
    Trail jobs order (path ++ [next]) next where
  last := by simp
  steps := isChain_concat trail.steps trail.last found
  distinct := by
    rw [List.nodup_append]
    refine ⟨trail.distinct, List.nodup_singleton _, ?_⟩
    intro name here other there same
    exact fresh (List.mem_singleton.mp there ▸ same ▸ here)
  pending := by
    intro name member
    rcases List.mem_append.mp member with earlier | now
    · exact trail.pending name earlier
    · exact List.mem_singleton.mp now ▸ (blocker?_cases found).1

theorem Trail.current_mem (trail : Trail jobs order path current) : current ∈ path :=
  List.mem_of_getLast? trail.last

theorem Trail.length_le (trail : Trail jobs order path current) : path.length ≤ jobs.length := by
  have inside : path ⊆ jobs.map Job.name := fun name member =>
    (isPending_iff.mp (trail.pending name member)).1
  have few := (List.subperm_of_subset trail.distinct inside).length_le
  rwa [List.length_map] at few

/-- If nobody on a path is without a pending producer, the search comes back: a path that never did
would be longer than the list of jobs. -/
theorem closes_walk
    (stuck : ∀ name, isPending jobs (marks jobs order) name = true →
      ∃ next, blocker? jobs (marks jobs order) name = some next)
    (trail : Trail jobs order path current) {fuel : Nat}
    (enough : jobs.length < path.length + fuel) :
    Closes jobs order path current (walk jobs (marks jobs order) fuel path current) := by
  induction fuel generalizing path current with
  | zero =>
    have bound := trail.length_le
    omega
  | succ fuel ih =>
    obtain ⟨next, found⟩ := stuck current (trail.pending current trail.current_mem)
    by_cases known : next ∈ path
    · have ends : walk jobs (marks jobs order) (fuel + 1) path current =
          path.dropWhile (fun name => name ≠ next) ++ [next] := by
        simp only [walk, found, known, if_true]
      rw [ends]
      exact Closes.back found known
    · have goes : walk jobs (marks jobs order) (fuel + 1) path current =
          walk jobs (marks jobs order) fuel (path ++ [next]) next := by
        simp only [walk, found, known, if_false]
      rw [goes]
      refine Closes.onward found known (ih (trail.onward found known) ?_)
      rw [List.length_append, List.length_singleton]
      omega

theorem dropWhile_eq_of_mem (member : next ∈ path) :
    ∃ before after, path = before ++ next :: after ∧
      path.dropWhile (fun name => name ≠ next) = next :: after := by
  obtain ⟨before, after, rfl, absent⟩ := List.eq_append_cons_of_mem member
  refine ⟨before, after, rfl, ?_⟩
  have passed : ∀ name ∈ before, decide (name ≠ next) = true := fun name earlier =>
    decide_eq_true fun same => absent (same ▸ earlier)
  rw [List.dropWhile_append_of_pos passed, List.dropWhile_cons_of_neg (by simp)]

end Schedule

namespace Program

open Schedule

variable {p : Program} {producers : OrderedMap String} {jobs stuck : List Job} {done : List Bool}
  {path : List String}

/-! ### Circles of the graph -/

/-- Pipelines each of which waits for the next. The last is the first again, and no other comes
twice. -/
structure IsCircle (p : Program) (path : List String) : Prop where
  long : 2 ≤ path.length
  closed : path.head? = path.getLast?
  distinct : path.dropLast.Nodup
  defined : ∀ name ∈ path, name ∈ p.pipelines.keys
  waits : path.IsChain p.DependsOn

theorem IsCircle.not_acyclic (circle : p.IsCircle path) : ¬ p.Acyclic := by
  obtain ⟨first, second, rest, rfl⟩ : ∃ first second rest, path = first :: second :: rest := by
    match path, circle.long with
    | first :: second :: rest, _ => exact ⟨first, second, rest, rfl⟩
  obtain ⟨step, steps⟩ := List.isChain_cons_cons.mp circle.waits
  have final : (second :: rest).getLast (List.cons_ne_nil _ _) = first := by
    have closed := circle.closed
    rw [List.head?_cons, List.getLast?_cons_cons, List.getLast?_eq_some_getLast] at closed
    exact (Option.some.inj closed).symm
  have onward : Relation.ReflTransGen p.DependsOn second first :=
    List.relationReflTransGen_of_exists_isChain_cons rest steps final
  exact fun acyclic => acyclic first (Relation.TransGen.head' step onward)

theorem dependsOn_of_blocker (listed : p.JobsOf producers jobs) {current next : String}
    (found : blocker? jobs done current = some next) : p.DependsOn current next := by
  obtain ⟨_, job, member, rfl, waited⟩ := blocker?_cases found
  exact (listed.dependsOn_iff member).mpr waited

theorem isCircle_of_closes (listed : p.JobsOf producers jobs) {current : String}
    {circle : List String} (trail : Trail jobs stuck path current)
    (closes : Closes jobs stuck path current circle) : p.IsCircle circle := by
  induction closes with
  | @back path current next found known =>
    obtain ⟨before, after, split, kept⟩ := dropWhile_eq_of_mem known
    rw [kept]
    have defined : ∀ name ∈ path, name ∈ p.pipelines.keys := fun name member =>
      listed.names.mem_iff.mp (isPending_iff.mp (trail.pending name member)).1
    have last : (next :: after).getLast? = some current := by
      rw [← trail.last, split, List.getLast?_append_cons]
    have suffix : next :: after <:+ path := ⟨before, split.symm⟩
    refine ⟨by simp, ?closed, ?distinct, ?defined, ?waits⟩
    case closed => rw [List.cons_append, List.head?_cons, ← List.cons_append, List.getLast?_concat]
    case distinct =>
      rw [List.dropLast_concat]
      exact trail.distinct.sublist suffix.sublist
    case defined =>
      intro name member
      rcases List.mem_append.mp member with inside | again
      · exact defined name (suffix.subset inside)
      · exact List.mem_singleton.mp again ▸ defined next known
    case waits =>
      have steps := (trail.steps.suffix suffix).imp fun _ _ => dependsOn_of_blocker listed
      exact isChain_concat steps last (dependsOn_of_blocker listed found)
  | onward found fresh _ ih => exact ih (trail.onward found fresh)

/-! ### Where the search starts -/

theorem find?_unmarked (jobs order : List Job) :
    (jobs.zip (marks jobs order)).find? (fun entry => !entry.2) =
      (jobs.find? fun job => !(order.any fun done => done.name = job.name)).map fun job =>
        (job, order.any fun done => done.name = job.name) := by
  rw [zip_marks, List.find?_map]
  rfl

theorem exists_left (listed : p.JobsOf producers jobs) (short : stuck.length < jobs.length) :
    ∃ first, jobs.find? (fun job => !(stuck.any fun done => done.name = job.name)) = some first := by
  apply Option.isSome_iff_exists.mp
  rw [List.find?_isSome]
  by_contra none
  have covered : jobs.map Job.name ⊆ stuck.map Job.name := by
    intro name member
    obtain ⟨job, here, rfl⟩ := List.mem_map.mp member
    by_contra missing
    exact none ⟨job, here, by simpa using missing⟩
  have few := (List.subperm_of_subset listed.nodup_names covered).length_le
  rw [List.length_map, List.length_map] at few
  omega

theorem exists_blocker (listed : p.JobsOf producers jobs)
    (idle : jobs.find? (isReady stuck) = none) {name : String}
    (pending : isPending jobs (marks jobs stuck) name = true) :
    ∃ next, blocker? jobs (marks jobs stuck) name = some next := by
  obtain ⟨known, missing⟩ := isPending_iff.mp pending
  obtain ⟨job, here, rfl⟩ := List.mem_map.mp known
  have blocked : ¬ ∀ need ∈ job.needs, need.producer ∈ stuck.map Job.name := fun met =>
    List.find?_eq_none.mp idle job here (isReady_iff.mpr ⟨missing, met⟩)
  simp only [not_forall] at blocked
  obtain ⟨need, waited, unmet⟩ := blocked
  have edge := (listed.dependsOn_iff here).mpr ⟨need, waited, rfl⟩
  have defined := listed.names.mem_iff.mpr edge.producer_mem
  unfold blocker?
  rw [listed.find?_name here]
  apply Option.isSome_iff_exists.mp
  rw [List.find?_isSome]
  exact ⟨need.producer, List.mem_map_of_mem waited, isPending_iff.mpr ⟨defined, unmet⟩⟩

theorem closes_findCycle (listed : p.JobsOf producers jobs) (short : stuck.length < jobs.length)
    (idle : jobs.find? (isReady stuck) = none) :
    ∃ first, jobs.find? (fun job => !(stuck.any fun done => done.name = job.name)) = some first ∧
      Trail jobs stuck [first.name] first.name ∧
      Closes jobs stuck [first.name] first.name (findCycle jobs (marks jobs stuck)) := by
  obtain ⟨first, found⟩ := exists_left listed short
  have pending : isPending jobs (marks jobs stuck) first.name = true := by
    have left := List.find?_some found
    have known := List.mem_map_of_mem (f := Job.name) (List.mem_of_find?_eq_some found)
    exact isPending_iff.mpr ⟨known, by simpa using left⟩
  have started : findCycle jobs (marks jobs stuck) =
      walk jobs (marks jobs stuck) jobs.length [first.name] first.name := by
    rw [findCycle, find?_unmarked, found]
    rfl
  have trail := trail_single pending
  refine ⟨first, found, trail, ?_⟩
  rw [started]
  apply closes_walk (fun _ => exists_blocker listed idle) trail
  rw [List.length_singleton]
  omega

theorem isCircle_findCycle (listed : p.JobsOf producers jobs) (short : stuck.length < jobs.length)
    (idle : jobs.find? (isReady stuck) = none) : p.IsCircle (findCycle jobs (marks jobs stuck)) := by
  obtain ⟨_, _, trail, closes⟩ := closes_findCycle listed short idle
  exact isCircle_of_closes listed trail closes

theorem schedule_of_jobs (made : p.jobs = .ok jobs) : p.schedule = Schedule.order jobs := by
  rw [schedule, made]
  rfl

theorem schedule_of_refused {e : ProgramError} (refused : p.runOrder = .error e) :
    p.schedule = .error e := by
  have named : (p.schedule.map fun order => order.map Job.name) = .error e := refused
  cases made : p.schedule with
  | ok order =>
    rw [made] at named
    cases named
  | error cause =>
    rw [made] at named
    cases named
    rfl

theorem stuck_of_refused (refused : p.schedule = .error (.cycle path)) :
    ∃ producers jobs taken, p.jobs = .ok jobs ∧ p.JobsOf producers jobs ∧ Greedy jobs taken ∧
      taken.length < jobs.length ∧ jobs.find? (isReady taken) = none ∧
      path = findCycle jobs (marks jobs taken) := by
  by_cases unique : p.signals.Nodup
  · obtain ⟨producers, kept, entries⟩ := producers_of_nodup unique
    obtain ⟨jobs, made, _, listed⟩ := jobs_of_producers kept entries
    rw [schedule_of_jobs made] at refused
    rcases order_cases listed.nodup_names with ⟨_, ordered, _⟩ | ⟨taken, stopped, greedy, short, idle⟩
    · cases ordered.symm.trans refused
    · cases stopped.symm.trans refused
      exact ⟨producers, jobs, taken, made, listed, greedy, short, idle, rfl⟩
  · obtain ⟨_, _, _, _, repeated⟩ := producers_of_repeat unique
    rw [schedule, jobs, repeated] at refused
    cases refused

/-- A program that is refused for a circle is shown one: a circle of the graph, to which the search
comes from the earliest defined job that is left when none is ready any more. -/
theorem refusal_shows_circle {p : Program} {path : List String}
    (refused : p.runOrder = .error (.cycle path)) :
    p.IsCircle path ∧
      ∃ jobs taken first, p.jobs = .ok jobs ∧ Greedy jobs taken ∧
        jobs.find? (isReady taken) = none ∧
        jobs.find? (fun job => !(taken.any fun done => done.name = job.name)) = some first ∧
        Closes jobs taken [first.name] first.name path := by
  obtain ⟨producers, jobs, taken, made, listed, greedy, short, idle, rfl⟩ :=
    stuck_of_refused (schedule_of_refused refused)
  obtain ⟨first, found, _, closes⟩ := closes_findCycle listed short idle
  exact ⟨isCircle_findCycle listed short idle, jobs, taken, first, made, greedy, idle, found, closes⟩

/-- Two pipelines that wait for each other, behind one that waits for the first of them; the seed
is taken before they are found. -/
def deadlock : Program :=
  ⟨.ofList [("report", ⟨[.read "draft"]⟩),
    ("write", ⟨[.read "seed", .read "review", .notify "draft"]⟩),
    ("check", ⟨[.read "draft", .notify "review"]⟩), ("sow", ⟨[.read "orders", .notify "seed"]⟩)]⟩

theorem refusal_shows_deadlock :
    deadlock.runOrder = .error (.cycle ["write", "check", "write"]) ∧
      deadlock.IsCircle ["write", "check", "write"] := by
  have refused : deadlock.runOrder = .error (.cycle ["write", "check", "write"]) := rfl
  exact ⟨refused, (refusal_shows_circle refused).1⟩

end Program

end Tableflow
