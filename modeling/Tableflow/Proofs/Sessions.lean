import Tableflow.Proofs.Freshness

/-!
Sessions of a host on one context. Sources are added, tables published and programs run in any order
and with any failures, and the list of published signals only ever grows at its end.
-/

namespace Tableflow

/-- What a host can do to a context. -/
inductive Operation where
  | addSource (name : String) (table : Table)
  | publish (name : String) (table : Table)
  | run (program : Program)

namespace Context

variable {c d : Context} {name signal : String} {table : Table}

/-- The context after an operation, be it carried out or refused. -/
def perform (c : Context) : Operation → Context
  | .addSource name table => c.addSource name table
  | .publish name table => (c.publish? name table).getD c
  | .run program => (program.run c).value.2

def session (c : Context) (operations : List Operation) : Context := operations.foldl perform c

theorem session_append (c : Context) (before after : List Operation) :
    c.session (before ++ after) = (c.session before).session after := List.foldl_append

theorem entries_publish? (published : c.publish? name table = some d) :
    name ∉ c.signals.keys ∧ d.signals.entries = c.signals.entries ++ [(name, table)] := by
  unfold publish? at published
  split at published
  · cases published
  · rename_i untaken
    have fresh : name ∉ c.signals.keys := by
      rw [OrderedMap.mem_keys_iff, ← Option.isSome_iff_exists]
      exact untaken
    obtain rfl := Option.some.inj published
    exact ⟨fresh, OrderedMap.entries_insert_of_fresh table fresh⟩

theorem entries_prefix_run (p : Program) (c : Context) :
    c.signals.entries <+: (p.run c).value.2.signals.entries := by
  rcases Program.run_cases p c with ⟨_, _, _, _, _, refused⟩ | ⟨_, _, _, refused⟩ |
    ⟨_, _, _, _, refused⟩ | ⟨_, producers, order, _, plan, finished⟩
  · simp [refused]
  · simp [refused]
  · simp [refused]
  · rw [finished, (Program.settled_of_plan plan).registry]
    exact List.prefix_append _ _

theorem entries_prefix_perform (c : Context) (operation : Operation) :
    c.signals.entries <+: (c.perform operation).signals.entries := by
  cases operation with
  | addSource name table => exact List.prefix_refl _
  | publish name table =>
    show c.signals.entries <+: ((c.publish? name table).getD c).signals.entries
    cases published : c.publish? name table with
    | none => exact List.prefix_refl _
    | some d =>
      rw [Option.getD_some, (entries_publish? published).2]
      exact List.prefix_append _ _
  | run program => exact entries_prefix_run program c

theorem entries_prefix_session (c : Context) (operations : List Operation) :
    c.signals.entries <+: (c.session operations).signals.entries := by
  induction operations generalizing c with
  | nil => exact List.prefix_refl _
  | cons operation rest ih => exact (entries_prefix_perform c operation).trans (ih _)

theorem lookup?_of_published (published : c.signal? signal = some table) :
    c.lookup? signal = some table := by
  unfold signal? at published
  rw [lookup?, published, Option.some_or]

theorem signal?_of_prefix (grown : c.signals.entries <+: d.signals.entries)
    (published : c.signal? signal = some table) : d.signal? signal = some table := by
  rw [signal?, OrderedMap.get?_eq_some_iff] at published ⊢
  exact grown.subset published

/-- Over a whole session the published signals are only ever added to, at the end of the list and
under new names. So a name that means a published table means that table from then on, whatever
sources are added and whatever programs succeed, fail or are refused. -/
theorem signals_append_only (c : Context) (before after : List Operation) :
    (∀ operation, (c.session before).signals.entries <+:
      (c.session (before ++ [operation])).signals.entries) ∧
    ((c.session before).signals.entries.map Prod.fst).Nodup ∧
    ∀ signal table, (c.session before).signal? signal = some table →
      (c.session before).lookup? signal = some table ∧
      (c.session (before ++ after)).signal? signal = some table ∧
      (c.session (before ++ after)).lookup? signal = some table := by
  refine ⟨?_, (c.session before).signals.distinct, ?_⟩
  · intro operation
    rw [session_append]
    exact entries_prefix_perform _ operation
  · intro signal table published
    have later : (c.session (before ++ after)).signal? signal = some table := by
      rw [session_append]
      exact signal?_of_prefix (entries_prefix_session _ after) published
    exact ⟨lookup?_of_published published, later, lookup?_of_published later⟩

/-- A source takes the name of a signal, the host tries to publish it again, and a program is
refused for it and one fails. -/
def disturbance : List Operation :=
  [.addSource "grouped" .empty, .publish "grouped" .empty, .run Table.handover,
    .run ⟨.ofList [("fail", ⟨[.notify "half", .read "nowhere"]⟩)]⟩, .publish "late" .empty]

theorem signals_append_only_disturbed : ∃ table, table.rows.length = 4 ∧
    (Table.stock.session [.run Table.handover]).signal? "grouped" = some table ∧
    (Table.stock.session (.run Table.handover :: disturbance)).lookup? "grouped" = some table ∧
    (Table.stock.session (.run Table.handover :: disturbance)).signals.keys = ["grouped", "late"] := by
  obtain ⟨_, _, lasting⟩ := signals_append_only Table.stock [.run Table.handover] disturbance
  obtain ⟨_, _, found⟩ := lasting "grouped" _ rfl
  exact ⟨_, rfl, rfl, found, rfl⟩

end Context

end Tableflow
