import Mathlib.Data.List.Induction
import Mathlib.Data.List.Nodup
import Mathlib.Data.List.Perm.Basic
import Tableflow.Proofs.Freshness

/-!
Columns and the names in rows. Every stage makes the columns and the rows of its table apart, and
they stay together: the names of each row are the columns of the table, in their order and each
once.
-/

namespace Tableflow

namespace OrderedMap

variable {α : Type}

theorem keys_ofList (entries : List (String × α)) :
    (ofList entries).keys = Names.distinct (entries.map Prod.fst) := by
  induction entries using List.reverseRecOn with
  | nil => rfl
  | append_singleton entries entry ih =>
    have last : ofList (entries ++ [entry]) = (ofList entries).insert entry.1 entry.2 := by
      simp [ofList]
    rw [last, keys_insert, ih, List.map_append, List.map_singleton, Names.distinct_concat]
    simp only [Names.mem_distinct]

theorem keys_foldl_erase (names : List String) (m : OrderedMap α) :
    (names.foldl erase m).keys = m.keys.filter fun key => !names.contains key := by
  induction names generalizing m with
  | nil => simp
  | cons name rest ih =>
    rw [List.foldl_cons, ih, keys_erase, List.filter_filter]
    apply List.filter_congr
    intro key _
    by_cases same : key = name <;> simp [same]

end OrderedMap

namespace Table

variable {R : List String → List String → Prop} {t made : Table} {c : Context}
  {columns names : List String} {rows : List Row} {group : Option (List String)}

/-- A way to compare the names of a row with columns that lasts when both are changed alike. -/
structure Conforming (R : List String → List String → Prop) : Prop where
  refl : ∀ names, R names names
  mem : ∀ {keys names}, R keys names → ∀ name, name ∈ keys ↔ name ∈ names
  nodup : ∀ {keys names}, R keys names → names.Nodup → keys.Nodup
  filter : ∀ {keys names}, R keys names → ∀ keep : String → Bool, R (keys.filter keep) (names.filter keep)
  map : ∀ {keys names}, R keys names → ∀ rename : String → String, R (keys.map rename) (names.map rename)
  append : ∀ {keys names keys' names'}, R keys names → R keys' names' → R (keys ++ keys') (names ++ names')

theorem conforming_eq : Conforming Eq where
  refl _ := rfl
  mem same _ := by rw [same]
  nodup same unique := same ▸ unique
  filter same _ := by rw [same]
  map same _ := by rw [same]
  append same same' := by rw [same, same']

theorem conforming_perm : Conforming List.Perm where
  refl := .refl
  mem same _ := same.mem_iff
  nodup same unique := same.nodup_iff.mpr unique
  filter same keep := same.filter keep
  map same rename := same.map rename
  append same same' := same.append same'

/-- The names of every row are the columns, each once, as far as `R` compares them. -/
def Keyed (R : List String → List String → Prop) (t : Table) : Prop :=
  ∀ row ∈ t.rows, R row.keys (Names.distinct t.columns)

theorem keyed_ofParts (named : ∀ row ∈ rows, R row.keys (Names.distinct columns)) :
    (ofParts columns rows group).Keyed R := named

theorem Keyed.of_subset (keyed : t.Keyed R) (subset : rows ⊆ t.rows) :
    (ofParts t.columns rows group).Keyed R :=
  fun row member => keyed row (subset member)

theorem keys_arrange (columns : List String) (row : Row) :
    (arrange columns row).keys = Names.distinct columns := by
  rw [arrange, OrderedMap.keys_ofList, List.map_map]
  simp [Function.comp_def]

theorem get?_arrange {name : String} (listed : name ∈ columns) (row : Row) :
    (arrange columns row).get? name = some (row.cell name) := by
  have named : name ∈ (arrange columns row).keys := by
    rw [keys_arrange]
    exact Names.mem_distinct.mpr listed
  obtain ⟨cell, found⟩ := OrderedMap.mem_keys_iff.mp named
  have entry := OrderedMap.mem_of_mem_ofList (OrderedMap.get?_eq_some_iff.mp found)
  obtain ⟨_, _, same⟩ := List.mem_map.mp entry
  obtain ⟨rfl, rfl⟩ := Prod.mk.inj same
  exact found

/-! ### Tables from outside -/

theorem keyed_of_ofRows (conforming : Conforming R) (read : ofRows rows = .ok t) : t.Keyed R := by
  intro row member
  obtain ⟨before, _, rfl⟩ := (rows_of_ofRows read).2 row member
  rw [keys_arrange]
  exact conforming.refl _

theorem keyed_of_ofJson (conforming : Conforming R) {json : Json} (read : ofJson json = .ok t) :
    t.Keyed R := by
  obtain ⟨_, _, _, _, made⟩ := rows_of_ofJson read
  exact keyed_of_ofRows conforming made

theorem length_texts {record : Csv.Record} {number : Nat} {fields : List String}
    (read : record.texts number = .ok fields) : fields.length = record.fields.length := by
  rw [length_of_mapM read, List.length_zipIdx]

theorem keys_rowOfCsv {number : Nat} {record : Csv.Record} {row : Row}
    (read : rowOfCsv columns number record = .ok row) : row.keys = Names.distinct columns := by
  unfold rowOfCsv at read
  split at read
  · rename_i full
    split at read
    · rename_i fields texts
      cases read
      have length := (length_texts texts).trans full
      rw [OrderedMap.keys_ofList, List.map_fst_zip (by simp [length])]
    · cases read
  · cases read

theorem keyed_of_ofCsv (conforming : Conforming R) {bytes : ByteArray} (read : ofCsv bytes = .ok t) :
    t.Keyed R := by
  intro row member
  obtain ⟨_, _, made⟩ := (rows_of_ofCsv read).2 row member
  rw [keys_rowOfCsv made]
  exact conforming.refl _

/-! ### Stages -/

theorem keyed_of_dropColumns (conforming : Conforming R) (keyed : t.Keyed R)
    (ended : t.dropColumns names = .ok made) : made.Keyed R := by
  obtain ⟨_, rfl⟩ := dropColumns_eq_ok.mp ended
  apply keyed_ofParts
  intro row member
  obtain ⟨before, here, rfl⟩ := List.mem_map.mp member
  rw [OrderedMap.keys_foldl_erase, Names.distinct_filter]
  exact conforming.filter (keyed before here) _

theorem keyed_of_select (conforming : Conforming R) (ended : t.select names = .ok made) :
    made.Keyed R := by
  obtain ⟨_, rfl⟩ := select_eq_ok.mp ended
  apply keyed_ofParts
  intro row member
  obtain ⟨before, _, rfl⟩ := List.mem_map.mp member
  rw [keys_arrange]
  exact conforming.refl _

theorem keyed_of_filter (keyed : t.Keyed R) {e : Expr} (ended : t.filter e = .ok made) :
    made.Keyed R := by
  obtain ⟨rows, subset, rfl⟩ := rows_of_filter ended
  exact keyed.of_subset subset

/-- A row that gets a cell gets its name where the columns get it. -/
theorem keys_insert_conforming (conforming : Conforming R) {row : Row}
    (named : R row.keys (Names.distinct columns)) (column : String) (cell : Cell) :
    R (row.insert column cell).keys
      (Names.distinct (if columns.contains column then columns else columns ++ [column])) := by
  have known := conforming.mem named column
  rw [Names.mem_distinct] at known
  rw [OrderedMap.keys_insert]
  by_cases present : column ∈ columns
  · simpa [present, known.mpr present] using named
  · have absent : column ∉ row.keys := fun here => present (known.mp here)
    simpa [present, absent, Names.distinct_concat] using
      conforming.append named (conforming.refl [column])

theorem keyed_of_mutate (conforming : Conforming R) (keyed : t.Keyed R) {column : String} {e : Expr}
    (ended : t.mutate column e = .ok made) : made.Keyed R := by
  obtain ⟨cells, _, rfl⟩ := mutate_eq_ok.mp ended
  apply keyed_ofParts
  intro row member
  rw [← List.map_uncurry_zip_eq_zipWith, List.mem_map] at member
  obtain ⟨⟨before, cell⟩, paired, rfl⟩ := member
  exact keys_insert_conforming conforming (keyed before (List.of_mem_zip paired).1) column cell

theorem firstRows_sublist (columns : List String) (seen : List (List Key)) (rows : List Row) :
    (firstRows columns seen rows).Sublist rows := by
  induction rows generalizing seen with
  | nil => exact List.Sublist.slnil
  | cons row rest ih =>
    rw [firstRows]
    split
    · exact (ih seen).cons row
    · exact (ih _).cons_cons row

/-- Every group keeps one cell for each grouping column. -/
theorem length_of_mem_members (fresh : t.Fresh) {member : List Cell × List Nat}
    (known : member ∈ t.members) : member.1.length = (t.groupColumns.getD []).length := by
  unfold members at known
  split at known
  · rename_i grouping grouped
    obtain ⟨group, here, rfl⟩ := List.mem_map.mp known
    have partition := Grouping.partitions_iff.mpr (fresh grouping grouped).2
    obtain ⟨_, row, _, _, kept⟩ := partition.key group here
    simp [groupColumns, grouped, kept, Row.cells]
  · rename_i ungrouped
    obtain rfl := List.mem_singleton.mp known
    simp [groupColumns, ungrouped]

theorem keyed_of_summarize (conforming : Conforming R) (fresh : t.Fresh) {s : Summary}
    {column : String} (ended : t.summarize s column = .ok made) : made.Keyed R := by
  obtain ⟨_, rows, rfl, reduced⟩ := rows_of_summarize ended
  apply keyed_ofParts
  intro row member
  obtain ⟨group, known, _, result, _, _, _, rfl⟩ := reduced row member
  apply keys_insert_conforming conforming
  rw [OrderedMap.keys_ofList, List.map_fst_zip (length_of_mem_members fresh known).ge]
  exact conforming.refl _

theorem exists_of_mem_joinRows {leftName rightName : String} {left right : List (Cell × Row)}
    {row : Row} (member : row ∈ joinRows leftName rightName left (JoinIndex.build right)) :
    ∃ first ∈ left, ∃ second ∈ right, row = joinRow leftName rightName first.1 first.2 second.2 := by
  rw [joinRows_build] at member
  obtain ⟨first, here, member⟩ := List.mem_flatMap.mp member
  obtain ⟨second, there, rfl⟩ := List.mem_map.mp member
  refine ⟨first, here, second, ?_, rfl⟩
  split at there
  · cases there
  · exact (List.mem_filter.mp there).1

theorem keys_joinRow (leftName rightName : String) (key : Cell) (left right : Row) :
    (joinRow leftName rightName key left right).keys =
      Names.distinct (joinColumn :: left.keys.map (prefixed leftName) ++
        right.keys.map (prefixed rightName)) := by
  rw [joinRow, OrderedMap.keys_ofList]
  simp [OrderedMap.keys, Function.comp_def]

theorem keyed_of_join (conforming : Conforming R) (tables : c.Holds (Keyed R))
    {leftName leftColumn rightName rightColumn : String}
    (ended : join c leftName leftColumn rightName rightColumn = .ok made) : made.Keyed R := by
  obtain ⟨_, left, right, found, found', _, _, unique, keyedLeft, keyedRight, paired, paired', rfl⟩ :=
    tables_of_join ended
  apply keyed_ofParts
  intro row member
  obtain ⟨first, here, second, there, rfl⟩ := exists_of_mem_joinRows member
  -- no prefixed name comes twice, so neither does a column of either table
  have uniqueParts := unique
  rw [joinColumns, List.cons_append, List.nodup_cons, List.nodup_append] at uniqueParts
  obtain ⟨_, uniqueLeft, uniqueRight, _⟩ := uniqueParts
  have namedLeft : R first.2.keys left.columns := by
    rw [← Names.distinct_eq_self (uniqueLeft.of_map _)]
    exact tables _ _ found _ (snd_of_mapM_paired paired ▸ List.mem_map_of_mem here)
  have namedRight : R second.2.keys right.columns := by
    rw [← Names.distinct_eq_self (uniqueRight.of_map _)]
    exact tables _ _ found' _ (snd_of_mapM_paired paired' ▸ List.mem_map_of_mem there)
  have named : R (joinColumn :: first.2.keys.map (prefixed leftName) ++
      second.2.keys.map (prefixed rightName)) (joinColumns leftName rightName left right) :=
    conforming.append (conforming.append (conforming.refl [joinColumn]) (conforming.map namedLeft _))
      (conforming.map namedRight _)
  rw [keys_joinRow, Names.distinct_eq_self (conforming.nodup named unique),
    Names.distinct_eq_self unique]
  exact named

/-- The grouping is fresh, and the rows have the names of the columns. Summaries take the names of
their rows from the grouping, so the two last together only. -/
structure Regular (R : List String → List String → Prop) (t : Table) : Prop where
  fresh : t.Fresh
  keyed : t.Keyed R

theorem keeps_regular (conforming : Conforming R) (stage : Stage) : stage.Keeps (Regular R) := by
  intro c input output tables regular applied
  have fresh : output.Fresh :=
    keeps_fresh stage c input output (fun _ _ found => (tables _ _ found).fresh) regular.fresh applied
  refine ⟨fresh, ?_⟩
  have keyed := regular.keyed
  cases stage with
  | drop columns => exact keyed_of_dropColumns conforming keyed applied
  | filter e => exact keyed_of_filter keyed applied
  | groupBy columns =>
    obtain ⟨_, rfl⟩ := groupBy_eq_ok.mp (mapError_eq_ok.mp applied)
    exact keyed
  | join leftTable leftColumn rightTable rightColumn =>
    exact keyed_of_join conforming (fun _ _ found => (tables _ _ found).keyed) applied
  | mutate column e => exact keyed_of_mutate conforming keyed applied
  | notify signal =>
    obtain rfl := Except.ok.inj applied
    exact keyed
  | read source => exact (tables source output (load_eq_ok.mp applied)).keyed
  | select columns => exact keyed_of_select conforming applied
  | sort columns descending =>
    obtain ⟨_, rows, same, rfl⟩ := perm_of_sort applied
    exact keyed.of_subset same.subset
  | summarize summary column => exact keyed_of_summarize conforming regular.fresh applied
  | ungroup =>
    obtain rfl := Except.ok.inj applied
    exact keyed
  | unique columns =>
    obtain ⟨_, rfl⟩ := unique_eq_ok.mp applied
    exact keyed.of_subset (firstRows_sublist _ _ _).subset

theorem regular_empty : Regular R .empty :=
  ⟨fresh_of_ungrouped rfl, fun _ member => by cases member⟩

theorem Reachable.keyed (conforming : Conforming R) (reachable : t.Reachable) : t.Keyed R := by
  suffices regular : t.Regular R from regular.keyed
  induction reachable with
  | empty => exact regular_empty
  | ofRows read => exact ⟨fresh_of_ungrouped (ungrouped_of_ofRows read), keyed_of_ofRows conforming read⟩
  | ofJson read => exact ⟨fresh_of_ungrouped (ungrouped_of_ofJson read), keyed_of_ofJson conforming read⟩
  | ofCsv read => exact ⟨fresh_of_ungrouped (ungrouped_of_ofCsv read), keyed_of_ofCsv conforming read⟩
  | stage _ _ applied tables ih => exact keeps_regular conforming _ _ _ _ tables ih applied
  | groupBy _ ended ih =>
    obtain ⟨_, rfl⟩ := groupBy_eq_ok.mp ended
    exact ⟨fresh_of_groupBy ended, ih.keyed⟩
  | ungroup _ ih => exact ⟨fresh_of_ungrouped rfl, ih.keyed⟩

/-- Every row of a reachable table has the columns of the table for its names, in their order and
each once, so it has a cell under every column and under no other name. Runs that start from
reachable tables publish and end with such tables. -/
theorem rows_match_columns :
    (∀ t : Table, t.Reachable → ∀ row ∈ t.rows, row.keys = Names.distinct t.columns ∧
      ∀ name, (∃ cell, row.get? name = some cell) ↔ name ∈ t.columns) ∧
    ∀ (p : Program) (c : Context), c.Holds Reachable →
      (p.run c).value.2.Holds (Keyed Eq) ∧ ∀ report, (p.run c).value.1 = .ok report →
        ∀ name table, report.get? name = some (.succeeded table) → table.Keyed Eq := by
  constructor
  · intro t reachable row member
    have named : row.keys = Names.distinct t.columns := reachable.keyed conforming_eq row member
    refine ⟨named, ?_⟩
    intro name
    rw [← OrderedMap.mem_keys_iff, named, Names.mem_distinct]
  · intro p c holds
    obtain ⟨published, ended⟩ :=
      Program.holds_run (p := p) .empty (fun _ _ _ stage _ => stage.keeps_reachable) holds
    exact ⟨fun name table found => (published name table found).keyed conforming_eq,
      fun report ran name table found => (ended report ran name table found).keyed conforming_eq⟩

/-- Items are counted by a column that is named twice. -/
def tally : Program :=
  ⟨.ofList [("count", ⟨[.read "stock", .groupBy ["kind", "kind"], .summarize .count "item"]⟩)]⟩

theorem reachable_stock : stock.Holds Reachable := by
  have rows : ofRows stockRows = .ok ⟨["kind", "item"], stockRows, none⟩ := rfl
  exact Context.holds_empty.addSource (.ofRows rows)

theorem rows_match_columns_tally :
    ∃ report final table row, stock.Holds Reachable ∧ (tally.run stock).value = (.ok report, final) ∧
      report.get? "count" = some (.succeeded table) ∧ table.Reachable ∧ table.Keyed Eq ∧
      table.columns = ["kind", "kind", "item"] ∧ table.rows.head? = some row ∧
      row.keys = ["kind", "item"] ∧ row.keys = Names.distinct table.columns ∧
      ∀ name, (∃ cell, row.get? name = some cell) ↔ name ∈ table.columns := by
  obtain ⟨shaped, runs⟩ := rows_match_columns
  have keyed := (runs tally stock reachable_stock).2 _ rfl "count" _ rfl
  have reachable := (Program.holds_run (p := tally) .empty
    (fun _ _ _ stage _ => stage.keeps_reachable) reachable_stock).2 _ rfl "count" _ rfl
  obtain ⟨named, cells⟩ := shaped _ reachable _ (List.mem_of_head? rfl)
  exact ⟨_, _, _, _, reachable_stock, rfl, rfl, reachable, keyed, rfl, rfl, rfl, named, cells⟩

end Table

end Tableflow
