import Tableflow.Proofs.Shape

/-!
Which tables can be written as comma-separated text. The header has a field for every column and a
record has one for every name of its row, so a table whose rows have its columns can be written
unless a column comes twice. Only a grouping that names a column twice leads there: a summary takes
its columns from the grouping.
-/

namespace Tableflow

/-! ### Records of one length -/

namespace Csv

theorem error_writeLines_eq_none_iff {expected : Nat} {records : List (List (List Char))} :
    (writeLines expected records).error = none ↔ ∀ record ∈ records, record.length = expected := by
  induction records with
  | nil => simp [writeLines]
  | cons record rest ih =>
    by_cases fits : record.length = expected
    · simp [writeLines, fits, ih]
    · simp [writeLines, fits]

/-- Records can be written exactly if they have one length. -/
theorem error_write_eq_none_iff {records : List (List String)} :
    (write records).error = none ↔ ∃ length, ∀ record ∈ records, record.length = length := by
  cases records with
  | nil => simp [write]
  | cons first rest =>
    rw [write, error_writeLines_eq_none_iff]
    simp

end Csv

namespace Table

variable {t made : Table} {c : Context} {columns names : List String} {rows : List Row}
  {group : Option (List String)}

theorem length_values (row : Row) : row.values.length = row.keys.length := by
  simp [OrderedMap.values, OrderedMap.keys]

theorem mem_csvRecords {record : List String} : record ∈ t.csvRecords ↔
    (t.columns ≠ [] ∧ record = t.columns) ∨
      ∃ row ∈ t.rows, row.values.map Cell.toText = record := by
  by_cases none : t.columns = [] <;> simp [csvRecords, none]

theorem length_csvRecords (keyed : t.Keyed List.Perm) (unique : t.columns.Nodup) :
    ∀ record ∈ t.csvRecords, record.length = t.columns.length := by
  intro record member
  rcases mem_csvRecords.mp member with ⟨_, rfl⟩ | ⟨row, here, rfl⟩
  · rfl
  · have named := keyed row here
    rw [Names.distinct_eq_self unique] at named
    rw [List.length_map, length_values, named.length_eq]

/-- A table that is keyed by its columns can be written exactly if it has no rows or names no column
twice. -/
theorem error_toCsv_eq_none_iff (keyed : t.Keyed List.Perm) :
    t.toCsv.error = none ↔ t.rows = [] ∨ t.columns.Nodup := by
  rw [toCsv, Csv.error_write_eq_none_iff]
  constructor
  · rintro ⟨length, same⟩
    cases listed : t.rows with
    | nil => exact .inl rfl
    | cons row rest =>
      right
      by_cases none : t.columns = []
      · simp [none]
      · have here : row ∈ t.rows := by simp [listed]
        have header := same t.columns (mem_csvRecords.mpr (.inl ⟨none, rfl⟩))
        have record := same _ (mem_csvRecords.mpr (.inr ⟨row, here, rfl⟩))
        rw [List.length_map, length_values, (keyed row here).length_eq] at record
        exact Names.length_distinct_eq_iff.mp (record.trans header.symm)
  · rintro (empty | unique)
    · refine ⟨t.columns.length, fun record member => ?_⟩
      rcases mem_csvRecords.mp member with ⟨_, rfl⟩ | ⟨row, here, _⟩
      · rfl
      · simp [empty] at here
    · exact ⟨t.columns.length, length_csvRecords keyed unique⟩

/-! ### Columns that are named once -/

/-- No column is named twice, by the table or by its grouping. -/
structure NamedOnce (t : Table) : Prop where
  columns : t.columns.Nodup
  grouping : ∀ names, t.groupColumns = some names → names.Nodup

theorem groupColumns_ofParts (columns : List String) (rows : List Row) (group : Option (List String)) :
    (ofParts columns rows group).groupColumns = group := by
  cases group <;> rfl

theorem namedOnce_ofParts (unique : columns.Nodup)
    (uniqueGroup : ∀ names, group = some names → names.Nodup) :
    (ofParts columns rows group).NamedOnce :=
  ⟨unique, fun names grouped => uniqueGroup names (groupColumns_ofParts columns rows group ▸ grouped)⟩

theorem nodup_concat_unless (unique : names.Nodup) (name : String) :
    (if names.contains name then names else names ++ [name]).Nodup := by
  split
  · exact unique
  · rename_i absent
    simp only [List.contains_eq_mem, decide_eq_true_eq] at absent
    rw [← List.concat_eq_append]
    exact unique.concat absent

theorem keeps_namedOnce (stage : Stage)
    (once : ∀ columns, stage = .groupBy columns → columns.Nodup) : stage.Keeps NamedOnce := by
  intro c input output tables unique applied
  have survives : ∀ {columns names}, survivingGroup input.groupColumns columns = some names →
      names.Nodup := by
    intro columns names kept
    exact unique.grouping names (Option.filter_eq_some_iff.mp kept).1
  cases stage with
  | drop columns =>
    obtain ⟨_, rfl⟩ := dropColumns_eq_ok.mp applied
    exact namedOnce_ofParts (unique.columns.filter _) fun _ kept => survives kept
  | filter e =>
    obtain ⟨_, _, rfl⟩ := filter_eq_ok.mp applied
    exact namedOnce_ofParts unique.columns unique.grouping
  | groupBy columns =>
    obtain ⟨_, rfl⟩ := groupBy_eq_ok.mp (mapError_eq_ok.mp applied)
    apply namedOnce_ofParts unique.columns
    rintro _ ⟨⟩
    exact once columns rfl
  | join leftTable leftColumn rightTable rightColumn =>
    obtain ⟨_, _, _, _, _, _, _, distinct, _, _, _, _, rfl⟩ := tables_of_join applied
    exact namedOnce_ofParts distinct nofun
  | mutate column e =>
    obtain ⟨_, _, rfl⟩ := mutate_eq_ok.mp applied
    exact namedOnce_ofParts (nodup_concat_unless unique.columns column) unique.grouping
  | notify signal =>
    obtain rfl := Except.ok.inj applied
    exact unique
  | read source => exact tables source output (load_eq_ok.mp applied)
  | select columns =>
    obtain ⟨_, rfl⟩ := select_eq_ok.mp applied
    exact namedOnce_ofParts (Names.nodup_distinct columns) fun _ kept => survives kept
  | sort columns descending =>
    obtain ⟨_, _, _, rfl⟩ := perm_of_sort applied
    exact namedOnce_ofParts unique.columns unique.grouping
  | summarize summary column =>
    obtain ⟨_, _, rfl, _⟩ := rows_of_summarize applied
    refine namedOnce_ofParts (nodup_concat_unless ?_ column) nofun
    cases grouped : input.groupColumns with
    | none => exact List.nodup_nil
    | some names => exact unique.grouping names grouped
  | ungroup =>
    obtain rfl := Except.ok.inj applied
    exact ⟨unique.columns, nofun⟩
  | unique columns =>
    obtain ⟨_, rfl⟩ := unique_eq_ok.mp applied
    exact namedOnce_ofParts unique.columns unique.grouping

end Table

namespace Program

/-- No stage of the program groups by a column that it names twice. -/
def GroupsOnce (p : Program) : Prop :=
  ∀ name pipeline, p.pipelines.get? name = some pipeline →
    ∀ columns, .groupBy columns ∈ pipeline.stages → columns.Nodup

variable {p : Program} {c : Context} {report : Report}

theorem keyed_of_run (tables : c.Holds (Table.Regular List.Perm))
    (ran : (p.run c).value.1 = .ok report) {name : String} {t : Table}
    (ended : report.get? name = some (.succeeded t)) : t.Keyed List.Perm :=
  ((holds_run Table.regular_empty
    (fun _ _ _ stage _ => Table.keeps_regular Table.conforming_perm stage) tables).2
    report ran name t ended).keyed

theorem namedOnce_of_run (once : p.GroupsOnce) (tables : c.Holds Table.NamedOnce)
    (ran : (p.run c).value.1 = .ok report) {name : String} {t : Table}
    (ended : report.get? name = some (.succeeded t)) : t.NamedOnce := by
  have start : Table.NamedOnce .empty := ⟨List.nodup_nil, nofun⟩
  refine (holds_run start ?_ tables).2 report ran name t ended
  rintro name pipeline defined stage member
  apply Table.keeps_namedOnce
  rintro columns rfl
  exact once name pipeline defined columns member

/-- A run on tables with distinct columns and rows keyed by them, grouped as they stand, ends with
tables that can be written unless a column of theirs comes twice; and none does if no grouping names
a column twice. -/
theorem csv_accepts_results
    (tables : c.Holds fun t => t.Fresh ∧ t.columns.Nodup ∧ ∀ row ∈ t.rows, row.keys.Perm t.columns)
    (ran : (p.run c).value.1 = .ok report) {name : String} {t : Table}
    (ended : report.get? name = some (.succeeded t)) :
    (t.toCsv.error = none ↔ t.rows = [] ∨ t.columns.Nodup) ∧
    (p.GroupsOnce → (c.Holds fun t => ∀ names, t.groupColumns = some names → names.Nodup) →
      t.toCsv.error = none ∧ ∀ record ∈ t.csvRecords, record.length = t.columns.length) := by
  have regular : c.Holds (Table.Regular List.Perm) := by
    intro source table found
    obtain ⟨fresh, unique, keyed⟩ := tables source table found
    refine ⟨fresh, fun row member => ?_⟩
    rw [Names.distinct_eq_self unique]
    exact keyed row member
  have keyed := keyed_of_run regular ran ended
  refine ⟨Table.error_toCsv_eq_none_iff keyed, ?_⟩
  intro once grouped
  have unique := namedOnce_of_run once
    (fun source table found => ⟨(tables source table found).2.1, grouped source table found⟩) ran ended
  exact ⟨(Table.error_toCsv_eq_none_iff keyed).mpr (.inr unique.columns),
    Table.length_csvRecords keyed unique.columns⟩

open Table (stock tally)

/-- Items are counted by kind. -/
def inventory : Program :=
  ⟨.ofList [("count", ⟨[.read "stock", .groupBy ["kind"], .summarize .count "item"]⟩)]⟩

theorem holds_stock {P : Table → Prop}
    (only : P ⟨["kind", "item"], Table.stockRows, none⟩) : stock.Holds P :=
  Context.holds_empty.addSource only

theorem keyed_stock : stock.Holds fun t =>
    t.Fresh ∧ t.columns.Nodup ∧ ∀ row ∈ t.rows, row.keys.Perm t.columns := by
  refine holds_stock ⟨Table.fresh_of_ungrouped rfl, by decide, ?_⟩
  have named : ∀ row ∈ Table.stockRows, row.keys = ["kind", "item"] :=
    List.forall_mem_map.mpr fun _ _ => rfl
  intro row member
  rw [named row member]

theorem csv_accepts_inventory :
    ∃ report final table, (inventory.run stock).value = (.ok report, final) ∧
      report.get? "count" = some (.succeeded table) ∧ table.columns = ["kind", "item"] ∧
      inventory.GroupsOnce ∧ table.toCsv.error = none ∧
      ∀ record ∈ table.csvRecords, record.length = table.columns.length := by
  have once : inventory.GroupsOnce := by
    intro name pipeline defined columns member
    obtain ⟨-, rfl⟩ := Prod.mk.inj (List.mem_singleton.mp (OrderedMap.get?_eq_some_iff.mp defined))
    simp only [List.mem_cons, reduceCtorEq, Stage.groupBy.injEq, List.not_mem_nil, or_false,
      false_or] at member
    simp [member]
  have ungrouped : stock.Holds fun t => ∀ names, t.groupColumns = some names → names.Nodup :=
    holds_stock nofun
  obtain ⟨_, accepted⟩ := @csv_accepts_results inventory stock _ keyed_stock rfl "count" _ rfl
  obtain ⟨written, lengths⟩ := accepted once ungrouped
  exact ⟨_, _, _, rfl, rfl, rfl, once, written, lengths⟩

/-- Grouping by a column that is named twice leads to a table with distinct names in its rows and a
column too many. -/
theorem csv_refuses_repeated_group :
    (stock.Holds fun t => t.Fresh ∧ t.columns.Nodup ∧ ∀ row ∈ t.rows, row.keys.Perm t.columns) ∧
    ∃ report final table, (tally.run stock).value = (.ok report, final) ∧
      report.get? "count" = some (.succeeded table) ∧
      table.toCsv.error = some (.unequalLengths none 3 2) :=
  ⟨keyed_stock, _, _, _, rfl, rfl, rfl⟩

end Program

end Tableflow
