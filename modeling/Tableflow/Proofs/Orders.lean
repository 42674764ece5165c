import Mathlib.Data.List.Induction
import Mathlib.Data.List.Nodup
import Mathlib.Data.List.Perm.Subperm
import Mathlib.Data.List.ProdSigma
import Tableflow.Program.Schedule

/-!
Orders of jobs. The loop that makes an order takes the earliest defined ready job each time, until
all jobs are taken or none is ready. Its marks stay in step with the order: the jobs that have one are
those that are in the order.
-/

namespace Tableflow

namespace Schedule

/-- Whether a job is not in `order`, but all its producers are. -/
def isReady (order : List Job) (job : Job) : Bool :=
  !(order.any fun done => done.name = job.name) && isMet order job

/-! ### Orders seen job by job -/

/-- `P` holds of every job of the order together with the jobs before it. -/
def Along (P : List Job → Job → Prop) (order : List Job) : Prop :=
  ∀ before job after, order = before ++ job :: after → P before job

theorem along_nil {P : List Job → Job → Prop} : Along P [] := by
  intro before job after split
  simp at split

theorem along_snoc {P : List Job → Job → Prop} {order : List Job} {last : Job}
    (along : Along P order) (final : P order last) : Along P (order ++ [last]) := by
  intro before job after split
  rcases List.eq_nil_or_concat after with rfl | ⟨rest, other, rfl⟩
  · obtain ⟨rfl, same⟩ := List.append_inj' split rfl
    obtain rfl := List.singleton_inj.mp same
    exact final
  · rw [List.concat_eq_append, ← List.cons_append, ← List.append_assoc] at split
    exact along before job rest (List.append_inj' split rfl).1

theorem Along.of_append {P : List Job → Job → Prop} {front back : List Job}
    (along : Along P (front ++ back)) : Along P front := by
  intro before job after split
  exact along before job (after ++ back) (by rw [split, List.append_assoc, List.cons_append])

theorem Along.last {P : List Job → Job → Prop} {order : List Job} {last : Job}
    (along : Along P (order ++ [last])) : P order last := along order last [] rfl

/-- Every job comes up when it is ready: once, and behind all whom it waits for. -/
def Sequenced (order : List Job) : Prop := Along (fun before job => isReady before job = true) order

/-- Every job is the earliest defined one that is ready when it comes up. -/
def Greedy (jobs order : List Job) : Prop :=
  Along (fun before job => jobs.find? (isReady before) = some job) order

theorem isReady_iff {order : List Job} {job : Job} :
    isReady order job = true ↔ job.name ∉ order.map Job.name ∧
      ∀ need ∈ job.needs, need.producer ∈ order.map Job.name := by
  simp [isReady, isMet]

/-! ### Sequenced orders -/

namespace Sequenced

variable {order : List Job}

theorem nodup_names (sequenced : Sequenced order) : (order.map Job.name).Nodup := by
  induction order using List.reverseRecOn with
  | nil => exact List.nodup_nil
  | append_singleton front last ih =>
    have fresh := (isReady_iff.mp (Along.last sequenced)).1
    rw [List.map_append, List.nodup_append]
    refine ⟨ih (Along.of_append sequenced), List.nodup_singleton _, ?_⟩
    intro name here other there same
    rw [List.map_singleton, List.mem_singleton] at there
    exact fresh (there ▸ same ▸ here)

/-- What holds of a job once it holds of all whom the job waits for holds of every job. -/
theorem induction {P : Job → Prop} (sequenced : Sequenced order)
    (step : ∀ job ∈ order,
      (∀ other ∈ order, (∃ need ∈ job.needs, need.producer = other.name) → P other) → P job) :
    ∀ job ∈ order, P job := by
  have fronts : ∀ front back, order = front ++ back → ∀ job ∈ front, P job := by
    intro front
    induction front using List.reverseRecOn with
    | nil => intro _ _ job member; simp at member
    | append_singleton front last ih =>
      intro back split job member
      rw [List.append_assoc, List.singleton_append] at split
      rcases List.mem_append.mp member with earlier | now
      · exact ih (last :: back) split job earlier
      · obtain rfl := List.mem_singleton.mp now
        have ready := isReady_iff.mp (sequenced front job back split)
        apply step job (by simp [split])
        rintro other there ⟨need, waited, same⟩
        obtain ⟨producer, earlier, named⟩ := List.mem_map.mp (ready.2 need waited)
        have present : producer ∈ order := by simp [split, earlier]
        have one := List.inj_on_of_nodup_map sequenced.nodup_names present there (named.trans same)
        exact ih (job :: back) split other (one ▸ earlier)
  exact fronts order [] (List.append_nil order).symm

end Sequenced

theorem Greedy.sequenced {jobs order : List Job} (greedy : Greedy jobs order) : Sequenced order :=
  fun before job after split => List.find?_some (greedy before job after split)

theorem Greedy.subset {jobs order : List Job} (greedy : Greedy jobs order) : order ⊆ jobs := by
  intro job member
  obtain ⟨before, after, split⟩ := List.append_of_mem member
  exact List.mem_of_find?_eq_some (greedy before job after split)

theorem Greedy.perm {jobs order : List Job} (greedy : Greedy jobs order)
    (full : order.length = jobs.length) : order.Perm jobs := by
  have distinct : order.Nodup := List.Nodup.of_map Job.name greedy.sequenced.nodup_names
  exact (List.subperm_of_subset distinct greedy.subset).perm_of_length_le (Nat.le_of_eq full.symm)

/-! ### Marks -/

variable {jobs order : List Job} {job : Job}

/-- Marks for the jobs that are in `order`. -/
def marks (jobs order : List Job) : List Bool :=
  jobs.map fun job => order.any fun done => done.name = job.name

theorem marks_nil (jobs : List Job) : marks jobs [] = List.replicate jobs.length false :=
  List.map_const' ..

theorem zip_marks (jobs order : List Job) : jobs.zip (marks jobs order) =
    jobs.map fun job => (job, order.any fun done => done.name = job.name) := by
  exact List.map_prod_left_eq_zip.symm

/-- To mark a job is to append it to the order. -/
theorem set_marks (unique : (jobs.map Job.name).Nodup) {index : Nat} (there : jobs[index]? = some job) :
    (marks jobs order).set index true = marks jobs (order ++ [job]) := by
  apply List.ext_getElem?
  intro place
  rw [List.getElem?_set, marks, marks, List.getElem?_map, List.getElem?_map, List.length_map]
  by_cases same : index = place
  · subst same
    have inside := (List.getElem?_eq_some_iff.mp there).1
    rw [if_pos rfl, if_pos inside, there]
    simp
  · rw [if_neg same]
    cases found : jobs[place]? with
    | none => rfl
    | some other =>
      have apart : job.name ≠ other.name := by
        intro named
        obtain ⟨inside, rfl⟩ := List.getElem?_eq_some_iff.mp there
        obtain ⟨inside', rfl⟩ := List.getElem?_eq_some_iff.mp found
        have injective := @List.Nodup.getElem_inj_iff _ _ unique index (by simpa using inside) place
          (by simpa using inside')
        rw [List.getElem_map, List.getElem_map] at injective
        exact same (injective.mp named)
      simp [apart]

/-- With marks in step, the search takes the first ready job. -/
theorem find?_marks (jobs order : List Job) :
    (jobs.zip (marks jobs order)).zipIdx.find? (fun entry => !entry.1.2 && isMet order entry.1.1) =
      (jobs.zipIdx.find? fun entry => isReady order entry.1).map fun entry =>
        ((entry.1, order.any fun done => done.name = entry.1.name), entry.2) := by
  rw [zip_marks, List.zipIdx_map, List.find?_map]
  rfl

theorem find?_zipIdx (p : Job → Bool) (jobs : List Job) :
    (jobs.zipIdx.find? fun entry => p entry.1).map Prod.fst = jobs.find? p := by
  have plain : jobs.zipIdx.map Prod.fst = jobs := List.zipIdx_map_fst 0 jobs
  nth_rewrite 2 [← plain]
  rw [List.find?_map]
  rfl

/-! ### The loop -/

theorem extend_of_ready (unique : (jobs.map Job.name).Nodup) (count : Nat)
    (found : jobs.find? (isReady order) = some job) :
    extend jobs (count + 1) order (marks jobs order) =
      extend jobs count (order ++ [job]) (marks jobs (order ++ [job])) := by
  rw [← find?_zipIdx] at found
  obtain ⟨⟨first, index⟩, here, rfl⟩ := Option.map_eq_some_iff.mp found
  have there : jobs[index]? = some first :=
    List.mk_mem_zipIdx_iff_getElem?.mp (List.mem_of_find?_eq_some here)
  rw [extend, find?_marks, here, ← set_marks unique there]
  rfl

theorem extend_of_idle (count : Nat) (idle : jobs.find? (isReady order) = none) :
    extend jobs (count + 1) order (marks jobs order) =
      .error (.cycle (findCycle jobs (marks jobs order))) := by
  rw [← find?_zipIdx, Option.map_eq_none_iff] at idle
  rw [extend, find?_marks, idle]
  rfl

theorem extend_cases (unique : (jobs.map Job.name).Nodup) (greedy : Greedy jobs order) (count : Nat) :
    (∃ result, extend jobs count order (marks jobs order) = .ok result ∧ Greedy jobs result ∧
      result.length = order.length + count) ∨
    (∃ stuck, extend jobs count order (marks jobs order) =
        .error (.cycle (findCycle jobs (marks jobs stuck))) ∧
      Greedy jobs stuck ∧ stuck.length < order.length + count ∧
      jobs.find? (isReady stuck) = none) := by
  induction count generalizing order with
  | zero => exact Or.inl ⟨order, rfl, greedy, rfl⟩
  | succ count ih =>
    cases found : jobs.find? (isReady order) with
    | none =>
      exact Or.inr ⟨order, extend_of_idle count found, greedy, by omega, found⟩
    | some job =>
      have longer : (order ++ [job]).length + count = order.length + (count + 1) := by
        rw [List.length_append, List.length_singleton]
        omega
      rw [extend_of_ready unique count found, ← longer]
      exact ih (along_snoc greedy found)

theorem order_cases (unique : (jobs.map Job.name).Nodup) :
    (∃ result, Schedule.order jobs = .ok result ∧ Greedy jobs result ∧ result.Perm jobs) ∨
    (∃ stuck, Schedule.order jobs = .error (.cycle (findCycle jobs (marks jobs stuck))) ∧
      Greedy jobs stuck ∧ stuck.length < jobs.length ∧ jobs.find? (isReady stuck) = none) := by
  have start : Greedy jobs [] := along_nil
  rw [Schedule.order, ← marks_nil]
  rcases extend_cases unique start jobs.length with
    ⟨result, made, greedy, length⟩ | ⟨stuck, refused, greedy, short, idle⟩
  · rw [List.length_nil, Nat.zero_add] at length
    exact Or.inl ⟨result, made, greedy, greedy.perm length⟩
  · rw [List.length_nil, Nat.zero_add] at short
    exact Or.inr ⟨stuck, refused, greedy, short, idle⟩

end Schedule

end Tableflow
