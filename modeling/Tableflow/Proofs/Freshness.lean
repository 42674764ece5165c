import Tableflow.Proofs.Partition
import Tableflow.Proofs.Reachable
import Tableflow.Proofs.Stages

/-!
Groupings are never stale. Every stage makes the grouping anew for the rows that it leaves, so the
grouping of a reachable table partitions its rows by columns that it has.
-/

namespace Tableflow

namespace Table

variable {t made : Table} {c : Context} {columns names : List String} {rows : List Row}
  {group : Option (List String)}

/-- The grouping, if there is one, is by columns of the table and made for its rows. -/
def Fresh (t : Table) : Prop :=
  ∀ grouping, t.grouping = some grouping →
    grouping.columns ⊆ t.columns ∧ grouping = .build t.rows grouping.columns

theorem fresh_of_ungrouped (ungrouped : t.grouping = none) : t.Fresh := by
  intro grouping grouped
  cases ungrouped.symm.trans grouped

theorem fresh_ofParts (present : ∀ names, group = some names → names ⊆ columns) :
    (ofParts columns rows group).Fresh := by
  intro grouping grouped
  obtain ⟨names, kept, rfl⟩ := Option.map_eq_some_iff.mp grouped
  exact ⟨present names kept, rfl⟩

theorem Fresh.present (fresh : t.Fresh) (grouped : t.groupColumns = some names) :
    names ⊆ t.columns := by
  obtain ⟨grouping, found, rfl⟩ := Option.map_eq_some_iff.mp grouped
  exact (fresh grouping found).1

theorem Fresh.grouping_eq (fresh : t.Fresh) (grouped : t.groupColumns = some names) :
    t.grouping = some (.build t.rows names) := by
  obtain ⟨grouping, found, rfl⟩ := Option.map_eq_some_iff.mp grouped
  rw [found, ← (fresh grouping found).2]

/-! ### Tables from outside -/

theorem rows_of_ofRows (read : ofRows rows = .ok t) :
    t.grouping = none ∧ ∀ row ∈ t.rows, ∃ before ∈ rows, row = arrange t.columns before := by
  unfold ofRows at read
  split at read
  · cases read
    exact ⟨rfl, nofun⟩
  · split at read
    · cases read
    · cases read
      refine ⟨rfl, fun row member => ?_⟩
      obtain ⟨before, here, rfl⟩ := List.mem_map.mp member
      exact ⟨before, here, rfl⟩

theorem rows_of_ofJson {json : Json} (read : ofJson json = .ok t) :
    ∃ items rows, json = .array items ∧ rowsOfJson 0 items = .ok rows ∧ ofRows rows = .ok t := by
  unfold ofJson at read
  split at read
  · rename_i items
    obtain ⟨rows, listed, read⟩ := bind_eq_ok.mp read
    exact ⟨items, rows, rfl, mapError_eq_ok.mp listed, mapError_eq_ok.mp read⟩
  · cases read

theorem rows_of_ofCsv {bytes : ByteArray} (read : ofCsv bytes = .ok t) :
    t.grouping = none ∧
      ∀ row ∈ t.rows, ∃ number record, rowOfCsv t.columns number record = .ok row := by
  unfold ofCsv ofCsvRecords at read
  split at read
  · cases read
    exact ⟨rfl, nofun⟩
  · obtain ⟨names, _, read⟩ := bind_eq_ok.mp read
    dsimp only at read
    split at read
    · cases read
    · obtain ⟨rows, listed, read⟩ := bind_eq_ok.mp read
      obtain rfl := pure_eq_ok.mp read
      refine ⟨rfl, fun row member => ?_⟩
      obtain ⟨_, _, made⟩ := exists_of_mem_mapM listed member
      exact ⟨_, _, made⟩

theorem ungrouped_of_ofRows (read : ofRows rows = .ok t) : t.grouping = none :=
  (rows_of_ofRows read).1

theorem ungrouped_of_ofJson {json : Json} (read : ofJson json = .ok t) : t.grouping = none := by
  obtain ⟨_, _, _, _, made⟩ := rows_of_ofJson read
  exact ungrouped_of_ofRows made

theorem ungrouped_of_ofCsv {bytes : ByteArray} (read : ofCsv bytes = .ok t) : t.grouping = none :=
  (rows_of_ofCsv read).1

/-! ### Stages -/

theorem subset_of_survivingGroup (kept : survivingGroup group columns = some names) :
    names ⊆ columns := by
  obtain ⟨_, all⟩ := Option.filter_eq_some_iff.mp kept
  intro name member
  simpa using List.all_eq_true.mp all name member

theorem fresh_of_groupBy (ended : t.groupBy names = .ok made) : made.Fresh := by
  obtain ⟨present, rfl⟩ := groupBy_eq_ok.mp ended
  apply fresh_ofParts
  rintro _ ⟨⟩
  exact present

/-- Whatever the stage does to columns and rows, the grouping that it leaves is fresh. -/
theorem keeps_fresh (stage : Stage) : stage.Keeps Fresh := by
  intro c input output tables fresh applied
  cases stage with
  | drop columns =>
    obtain ⟨_, rfl⟩ := dropColumns_eq_ok.mp applied
    exact fresh_ofParts fun _ kept => subset_of_survivingGroup kept
  | filter e =>
    obtain ⟨_, _, rfl⟩ := filter_eq_ok.mp applied
    exact fresh_ofParts fun _ grouped => fresh.present grouped
  | groupBy columns => exact fresh_of_groupBy (mapError_eq_ok.mp applied)
  | join leftTable leftColumn rightTable rightColumn =>
    obtain ⟨_, _, _, _, _, _, _, _, _, _, _, _, rfl⟩ := tables_of_join applied
    exact fresh_of_ungrouped rfl
  | mutate column e =>
    obtain ⟨_, _, rfl⟩ := mutate_eq_ok.mp applied
    apply fresh_ofParts
    intro names grouped name member
    have present := fresh.present grouped member
    split
    · exact present
    · exact List.mem_append_left _ present
  | notify signal =>
    obtain rfl := Except.ok.inj applied
    exact fresh
  | read source => exact tables source output (load_eq_ok.mp applied)
  | select columns =>
    obtain ⟨_, rfl⟩ := select_eq_ok.mp applied
    exact fresh_ofParts fun _ kept => subset_of_survivingGroup kept
  | sort columns descending =>
    obtain ⟨_, _, _, rfl⟩ := perm_of_sort applied
    exact fresh_ofParts fun _ grouped => fresh.present grouped
  | summarize summary column =>
    obtain ⟨_, _, rfl, _⟩ := rows_of_summarize applied
    exact fresh_of_ungrouped rfl
  | ungroup =>
    obtain rfl := Except.ok.inj applied
    exact fresh_of_ungrouped rfl
  | unique columns =>
    obtain ⟨_, rfl⟩ := unique_eq_ok.mp applied
    exact fresh_ofParts fun _ grouped => fresh.present grouped

theorem Reachable.fresh (reachable : t.Reachable) : t.Fresh := by
  induction reachable with
  | empty => exact fresh_of_ungrouped rfl
  | ofRows read => exact fresh_of_ungrouped (ungrouped_of_ofRows read)
  | ofJson read => exact fresh_of_ungrouped (ungrouped_of_ofJson read)
  | ofCsv read => exact fresh_of_ungrouped (ungrouped_of_ofCsv read)
  | stage _ _ applied tables ih => exact keeps_fresh _ _ _ _ tables ih applied
  | groupBy _ ended => exact fresh_of_groupBy ended
  | ungroup => exact fresh_of_ungrouped rfl

/-- To be a partition by columns of the table is to be what grouping by them again would make. -/
theorem partitions_iff_regrouped {grouping : Grouping} :
    grouping.columns ⊆ t.columns ∧ grouping.Partitions t.rows ↔
      t.groupBy grouping.columns = .ok { t with grouping := some grouping } := by
  rw [groupBy_eq_ok, Grouping.partitions_iff]
  simp [ofParts, eq_comm]

/-- A reachable table that is grouped is grouped by columns it has, the groups partition its rows as
they are now, and grouping it again changes nothing. The two are one property. Runs that start from
reachable tables publish and end with reachable tables. -/
theorem grouping_never_stale :
    (∀ t : Table, t.Reachable → ∀ grouping, t.grouping = some grouping →
      grouping.columns ⊆ t.columns ∧ grouping.Partitions t.rows ∧
        t.groupBy grouping.columns = .ok t) ∧
    (∀ (t : Table) (grouping : Grouping), grouping.columns ⊆ t.columns ∧ grouping.Partitions t.rows ↔
      t.groupBy grouping.columns = .ok { t with grouping := some grouping }) ∧
    ∀ (p : Program) (c : Context), c.Holds Reachable →
      (p.run c).value.2.Holds Reachable ∧ ∀ report, (p.run c).value.1 = .ok report →
        ∀ name table, report.get? name = some (.succeeded table) → table.Reachable := by
  refine ⟨?_, fun _ _ => partitions_iff_regrouped, ?_⟩
  · intro t reachable grouping grouped
    obtain ⟨present, made⟩ := reachable.fresh grouping grouped
    have partition := Grouping.partitions_iff.mpr made
    refine ⟨present, partition, ?_⟩
    rw [partitions_iff_regrouped.mp ⟨present, partition⟩, ← grouped]
  · intro p c holds
    exact Program.holds_run .empty (fun _ _ _ stage _ => stage.keeps_reachable) holds

/-- Four rows of two kinds. -/
def stockRows : List Row :=
  [("tool", "pen"), ("paint", "ink"), ("tool", "pen"), ("tool", "cap")].map fun (kind, item) =>
    .ofList [("kind", some (.text kind)), ("item", some (.text item))]

def stock : Context := Context.empty.addSource "stock" ⟨["kind", "item"], stockRows, none⟩

/-- One pipeline publishes a grouped table, and another takes rows out of it. -/
def handover : Program :=
  ⟨.ofList [("thin", ⟨[.read "grouped", .unique ["item"]]⟩),
    ("group", ⟨[.read "stock", .groupBy ["kind"], .notify "grouped"]⟩)]⟩

theorem grouping_never_stale_handover :
    ∃ report final table grouping, (handover.run stock).value = (.ok report, final) ∧
      report.get? "thin" = some (.succeeded table) ∧ table.grouping = some grouping ∧
      grouping.groups.map Group.rows = [[0, 2], [1]] ∧ grouping.Partitions table.rows ∧
      table.groupBy grouping.columns = .ok table := by
  obtain ⟨fresh, _, runs⟩ := grouping_never_stale
  have rows : ofRows stockRows = .ok ⟨["kind", "item"], stockRows, none⟩ := rfl
  have holds : stock.Holds Reachable := Context.holds_empty.addSource (.ofRows rows)
  have reachable := (runs handover stock holds).2 _ rfl "thin" _ rfl
  obtain ⟨_, partition, same⟩ := fresh _ reachable _ rfl
  exact ⟨_, _, _, _, rfl, rfl, rfl, rfl, partition, same⟩

end Table

end Tableflow
