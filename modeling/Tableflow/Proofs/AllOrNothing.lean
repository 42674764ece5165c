import Mathlib.Data.List.Basic
import Tableflow.Proofs.Settlement

/-!
A run is refused before anything happens, or it takes place as a whole: every pipeline has its turn
in run order, and the registry grows by the notifications of those that succeed.
-/

namespace Tableflow

/-- How the turn of a pipeline went that saw the tables of `seen`. Only a run that succeeds
publishes, and it publishes its notifications. -/
def Pipeline.Fared (pipeline : Pipeline) (seen : Context) : Outcome → List (String × Table) → Prop
  | .succeeded table, published => (pipeline.run seen).value = .ok ⟨table, published⟩
  | .failed e, published => (pipeline.run seen).value = .error e ∧ published = []
  | .blocked _ _, published => published = []

theorem Job.fared (job : Job) (report : Report) (c : Context) :
    job.pipeline.Fared c (job.attempt report c).1 (job.attempt report c).2 := by
  rcases job.attempt_cases report c with
    ⟨_, _, _, made⟩ | ⟨_, ⟨e, ran, made⟩ | ⟨result, ran, made⟩⟩
  · rw [made]
    exact rfl
  · rw [made]
    exact ⟨ran, rfl⟩
  · rw [made]
    exact ran

namespace Program

variable {p : Program} {c : Context} {producers : OrderedMap String} {order : List Job}

/-- The books of a whole run, where `published` has the tables that each pipeline published. Each
pipeline saw the sources and, beside the old signals, what those before it in run order
published. -/
structure Ledger (p : Program) (c : Context) (report : Report) (final : Context)
    (published : String → List (String × Table)) : Prop where
  order : p.runOrder = .ok report.keys
  complete : report.keys.Perm p.pipelines.keys
  sources : final.sources = c.sources
  registry : final.signals.entries = c.signals.entries ++ report.keys.flatMap published
  turns : ∀ before name after, report.keys = before ++ name :: after →
    ∃ pipeline outcome seen, p.pipelines.get? name = some pipeline ∧
      report.get? name = some outcome ∧ seen.sources = c.sources ∧
      seen.signals.entries = c.signals.entries ++ before.flatMap published ∧
      pipeline.Fared seen outcome (published name)

def noteOf (order : List Job) (notes : Job → List (String × Table)) (name : String) :
    List (String × Table) :=
  match order.find? fun job => job.name = name with
  | some job => notes job
  | none => []

theorem noteOf_name (listed : p.JobsOf producers order) {notes : Job → List (String × Table)}
    {job : Job} (member : job ∈ order) : noteOf order notes job.name = notes job := by
  rw [noteOf, listed.find?_name member]

theorem flatMap_noteOf (listed : p.JobsOf producers order) (notes : Job → List (String × Table))
    {jobs : List Job} (members : jobs ⊆ order) :
    (jobs.map Job.name).flatMap (noteOf order notes) = jobs.flatMap notes := by
  rw [List.flatMap_map]
  apply List.flatMap_congr
  intro job member
  exact noteOf_name listed (members member)

theorem ledger_of_plan (plan : Plan p c producers order) (made : p.schedule = .ok order) :
    ∃ published, Ledger p c (finish c order).1 (finish c order).2 published := by
  have settled := settled_of_plan plan
  let notes (job : Job) := (job.attempt (finish c order).1 (finish c order).2).2
  refine ⟨noteOf order notes, ?ordered, ?complete, settled.sources, ?registry, ?turns⟩
  case ordered =>
    rw [runOrder, made, settled.names]
    rfl
  case complete => exact settled.names ▸ plan.listed.names
  case registry =>
    rw [settled.names, flatMap_noteOf plan.listed notes (List.Subset.refl order)]
    exact settled.registry
  case turns =>
    intro before name after split
    rw [settled.names] at split
    obtain ⟨front, job, back, whole, rfl, rfl⟩ := split_names split
    have member : job ∈ order := by simp [whole]
    have earlier : front ⊆ order := by simp [whole]
    refine ⟨job.pipeline, _, (finish c front).2, plan.listed.pipeline job member,
      settled.outcome job member, sources_foldl, ?_, ?_⟩
    · rw [flatMap_noteOf plan.listed notes earlier]
      exact entries_finish plan whole
    · have fared := job.fared (finish c front).1 (finish c front).2
      rw [attempt_at_turn plan whole] at fared
      rw [noteOf_name plan.listed member]
      exact fared

/-- A program that publishes a signal twice, waits in a circle or publishes a signal that is taken
is refused for the first of these reasons, and the context stays as it is. Every other program runs to
its end. -/
theorem run_all_or_nothing (p : Program) (c : Context) :
    (¬ p.signals.Nodup ∧ ∃ signal first second, p.Repeats signal first second ∧
      (p.run c).value = (.error (.duplicateSignal signal first second), c)) ∨
    (p.signals.Nodup ∧ ¬ p.Acyclic ∧ ∃ path, (p.run c).value = (.error (.cycle path), c)) ∨
    (p.signals.Nodup ∧ p.Acyclic ∧ ∃ signal, p.FirstTaken c signal ∧
      (p.run c).value = (.error (.alreadyPublished signal), c)) ∨
    (p.signals.Nodup ∧ p.Acyclic ∧ (∀ signal ∈ p.signals, c.signal? signal = none) ∧
      ∃ report final published, (p.run c).value = (.ok report, final) ∧
        Ledger p c report final published) := by
  rcases run_cases p c with repeated | circular | taken | planned
  · exact Or.inl repeated
  · exact Or.inr (Or.inl circular)
  · exact Or.inr (Or.inr (Or.inl taken))
  · obtain ⟨acyclic, producers, order, made, plan, finished⟩ := planned
    obtain ⟨published, ledger⟩ := ledger_of_plan plan made
    exact Or.inr (Or.inr (Or.inr
      ⟨plan.unique, acyclic, plan.untaken, _, _, published, finished, ledger⟩))

end Program

end Tableflow
