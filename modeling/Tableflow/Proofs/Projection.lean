import Mathlib.Data.List.Forall2
import Tableflow.Proofs.Shape

/-!
Tables with some of their columns. Selecting builds every row anew from the columns that are named,
dropping takes the named cells out of every row; both leave the projection of the table to the columns
that remain, and there is only one.
-/

namespace Tableflow

theorem Names.distinct_eq_eraseDups (names : List String) : distinct names = names.eraseDups := by
  induction names using List.reverseRecOn with
  | nil => rfl
  | append_singleton names name ih => rw [distinct_concat, eraseDups_concat, ih]

namespace OrderedMap

variable {α : Type}

theorem get?_erase_of_ne (m : OrderedMap α) {name other : String} (apart : other ≠ name) :
    (m.erase name).get? other = m.get? other := by
  ext value
  simp [get?_eq_some_iff, erase, apart]

theorem get?_foldl_erase {names : List String} {name : String} (absent : name ∉ names)
    (m : OrderedMap α) : (names.foldl erase m).get? name = m.get? name := by
  induction names generalizing m with
  | nil => rfl
  | cons first rest ih =>
    rw [List.mem_cons, not_or] at absent
    rw [List.foldl_cons, ih absent.2, get?_erase_of_ne m absent.1]

end OrderedMap

/-! ### Rows -/

namespace Row

variable {columns : List String} {before after other : Row}

/-- The row has exactly the given columns, in their order, with the cells of the row before. -/
def Narrows (columns : List String) (before after : Row) : Prop :=
  after.keys = columns ∧ ∀ name ∈ columns, after.get? name = before.get? name

theorem Narrows.unique (narrowed : Narrows columns before after)
    (narrowed' : Narrows columns before other) : after = other := by
  obtain ⟨keys, same⟩ := narrowed
  obtain ⟨keys', same'⟩ := narrowed'
  refine OrderedMap.eq_of_get? (keys.trans keys'.symm) fun name member => ?_
  rw [keys] at member
  rw [same name member, same' name member]

theorem Narrows.cells_eq (narrowed : Narrows columns before after) {names : List String}
    (listed : names ⊆ columns) : after.cells names = before.cells names := by
  refine List.map_congr_left fun name member => ?_
  rw [Row.cell, narrowed.2 name (listed member), Row.cell]

end Row

/-- A grouping depends on the cells under its columns only. -/
theorem Grouping.build_congr {columns : List String} {rows others : List Row}
    (same : (rows.map fun row => row.cells columns) = others.map fun row => row.cells columns) :
    build rows columns = build others columns := by
  have keys : keysOf columns rows = keysOf columns others := by
    have keyed := congrArg (List.map (List.map Cell.key)) same
    rwa [List.map_map, List.map_map] at keyed
  have groups : groupOf columns rows = groupOf columns others := by
    funext key
    simp only [groupOf, keys, ← List.getElem?_map, same]
  show Grouping.mk columns (build rows columns).groups = ⟨columns, (build others columns).groups⟩
  rw [groups_build, groups_build, keys, groups]

/-! ### Tables -/

namespace Table

variable {t made other : Table} {columns names group : List String} {rows : List Row}

/-- The table has the given columns and rows that are narrowed to them. It is grouped as before if
all columns of the grouping are there, and not at all otherwise. -/
structure Projects (names : List String) (t made : Table) : Prop where
  columns : made.columns = names
  rows : List.Forall₂ (Row.Narrows names) t.rows made.rows
  grouped : ∀ group, t.groupColumns = some group → group ⊆ names →
    made.grouping = some (.build made.rows group)
  ungrouped : (∀ group, t.groupColumns = some group → ¬ group ⊆ names) → made.grouping = none

theorem Projects.unique (projected : Projects columns t made) (projected' : Projects columns t other) :
    made = other := by
  have narrowing : Relator.RightUnique (Row.Narrows columns) := fun _ _ _ => Row.Narrows.unique
  have rows : made.rows = other.rows := narrowing.forall₂ projected.rows projected'.rows
  have grouping : made.grouping = other.grouping := by
    by_cases survives : ∃ group, t.groupColumns = some group ∧ group ⊆ columns
    · obtain ⟨group, grouped, listed⟩ := survives
      rw [projected.grouped group grouped listed, projected'.grouped group grouped listed, rows]
    · have lost : ∀ group, t.groupColumns = some group → ¬ group ⊆ columns :=
        fun group grouped listed => survives ⟨group, grouped, listed⟩
      rw [projected.ungrouped lost, projected'.ungrouped lost]
  cases made
  cases other
  cases projected.columns.trans projected'.columns.symm
  cases rows
  cases grouping
  rfl

/-- A grouping that was made for the rows of the table is also that of the narrowed rows. -/
theorem Projects.grouping_eq (projected : Projects columns t made) (fresh : t.Fresh)
    (grouped : t.groupColumns = some group) (listed : group ⊆ columns) : made.grouping = t.grouping := by
  rw [projected.grouped group grouped listed, fresh.grouping_eq grouped]
  refine congrArg some (Grouping.build_congr ?_)
  symm
  rw [← List.forall₂_eq_eq_eq, List.forall₂_map_left_iff, List.forall₂_map_right_iff]
  exact projected.rows.imp fun _ _ narrowed => (narrowed.cells_eq listed).symm

theorem survivingGroup_eq_some (grouped : t.groupColumns = some group) (listed : group ⊆ columns) :
    survivingGroup t.groupColumns columns = some group := by
  refine Option.filter_eq_some_iff.mpr ⟨grouped, List.all_eq_true.mpr fun name member => ?_⟩
  simpa using listed member

theorem survivingGroup_eq_none (lost : ∀ group, t.groupColumns = some group → ¬ group ⊆ columns) :
    survivingGroup t.groupColumns columns = none := by
  refine Option.eq_none_iff_forall_ne_some.mpr fun group kept => ?_
  exact lost group (Option.filter_eq_some_iff.mp kept).1 (subset_of_survivingGroup kept)

theorem projects_ofParts (narrowed : List.Forall₂ (Row.Narrows columns) t.rows rows) :
    Projects columns t (ofParts columns rows (survivingGroup t.groupColumns columns)) where
  columns := rfl
  rows := narrowed
  grouped group grouped listed := by
    rw [survivingGroup_eq_some grouped listed]
    rfl
  ungrouped lost := by
    rw [survivingGroup_eq_none lost]
    rfl

theorem projects_of_dropColumns (keyed : t.Keyed Eq) (unique : t.columns.Nodup)
    (ended : t.dropColumns names = .ok made) :
    Projects (t.columns.filter fun column => !names.contains column) t made := by
  obtain ⟨_, rfl⟩ := dropColumns_eq_ok.mp ended
  apply projects_ofParts
  rw [List.forall₂_map_right_iff, List.forall₂_same]
  intro row member
  refine ⟨?_, fun name kept => OrderedMap.get?_foldl_erase ?_ row⟩
  · rw [OrderedMap.keys_foldl_erase, keyed row member, Names.distinct_eq_self unique]
  · simpa using (List.mem_filter.mp kept).2

theorem projects_of_select (keyed : t.Keyed Eq) (ended : t.select names = .ok made) :
    Projects (Names.distinct names) t made := by
  obtain ⟨present, rfl⟩ := select_eq_ok.mp ended
  apply projects_ofParts
  rw [List.forall₂_map_right_iff, List.forall₂_same]
  intro row member
  refine ⟨?_, fun name kept => ?_⟩
  · rw [keys_arrange, Names.distinct_eq_self (Names.nodup_distinct names)]
  · have listed : name ∈ row.keys := by
      rw [keyed row member, Names.mem_distinct]
      exact present (Names.mem_distinct.mp kept)
    obtain ⟨cell, found⟩ := OrderedMap.mem_keys_iff.mp listed
    rw [get?_arrange kept, Row.cell, found, Option.join_some]

/-- Dropping columns of a table whose columns are distinct makes the same table as selecting the
others in their order: the projection to them, which keeps a grouping that was made for the rows if
none of its columns is dropped. Selecting columns makes the projection to the names that are listed,
each once and where it first comes. -/
theorem drop_complements_select (c : Context) (keyed : t.Keyed Eq) (present : names ⊆ t.columns) :
    let others := t.columns.filter fun column => column ∉ names
    (t.columns.Nodup → ∃ made, (Stage.drop names).apply c t = .ok made ∧
      (Stage.select others).apply c t = .ok made ∧ Projects others t made ∧
      (t.Fresh → ∀ group, t.groupColumns = some group → group ⊆ others →
        made.grouping = t.grouping)) ∧
    ∃ made, (Stage.select names).apply c t = .ok made ∧ Projects names.eraseDups t made := by
  intro others
  constructor
  · intro unique
    have rest : (t.columns.filter fun column => !names.contains column) = others := by simp [others]
    obtain ⟨dropped, ended⟩ : ∃ made, t.dropColumns names = .ok made :=
      ⟨_, dropColumns_eq_ok.mpr ⟨present, rfl⟩⟩
    obtain ⟨selected, ended'⟩ : ∃ made, t.select others = .ok made :=
      ⟨_, select_eq_ok.mpr ⟨List.filter_subset_self _, rfl⟩⟩
    have projected : Projects others t dropped := rest ▸ projects_of_dropColumns keyed unique ended
    have projected' : Projects others t selected := by
      have made := projects_of_select keyed ended'
      rwa [Names.distinct_eq_self (unique.filter _)] at made
    obtain rfl := projected.unique projected'
    exact ⟨dropped, ended, ended', projected, fun fresh _ => projected.grouping_eq fresh⟩
  · obtain ⟨selected, ended⟩ : ∃ made, t.select names = .ok made :=
      ⟨_, select_eq_ok.mpr ⟨present, rfl⟩⟩
    refine ⟨selected, ended, ?_⟩
    rw [← Names.distinct_eq_eraseDups]
    exact projects_of_select keyed ended

/-- Stock by kinds. -/
def byKind : Table := ofParts ["kind", "item"] stockRows (some ["kind"])

theorem drop_complements_select_byKind :
    byKind.Keyed Eq ∧ byKind.columns.Nodup ∧
    (∃ made, (Stage.drop ["item", "item"]).apply .empty byKind = .ok made ∧
      (Stage.select ["kind"]).apply .empty byKind = .ok made ∧ made.grouping = byKind.grouping ∧
      (made.grouping.map fun grouping => grouping.groups.map Group.rows) = some [[0, 2, 3], [1]]) ∧
    (∃ made, (Stage.drop ["kind"]).apply .empty byKind = .ok made ∧
      (Stage.select ["item"]).apply .empty byKind = .ok made ∧ made.grouping = none) ∧
    ∃ made, (Stage.select ["item", "kind", "item"]).apply .empty byKind = .ok made ∧
      made.columns = ["item", "kind"] ∧ Projects ["item", "kind"] byKind made := by
  have keyed : byKind.Keyed Eq := List.forall_mem_map.mpr fun _ _ => rfl
  have unique : byKind.columns.Nodup := by decide
  have fresh : byKind.Fresh := by
    apply fresh_ofParts
    rintro _ ⟨⟩
    decide
  obtain ⟨drops, _⟩ := @drop_complements_select byKind ["item", "item"] .empty keyed (by decide)
  obtain ⟨drops', _⟩ := @drop_complements_select byKind ["kind"] .empty keyed (by decide)
  obtain ⟨_, made, ended, projected⟩ :=
    @drop_complements_select byKind ["item", "kind", "item"] .empty keyed (by decide)
  obtain ⟨kept, dropped, selected, _, same⟩ := drops unique
  obtain ⟨bare, dropped', selected', cleared, _⟩ := drops' unique
  have grouping := same fresh ["kind"] rfl (by decide)
  refine ⟨keyed, unique, ⟨kept, dropped, selected, grouping, ?_⟩, ⟨bare, dropped', selected', ?_⟩,
    made, ended, projected.columns, projected⟩
  · rw [grouping]
    rfl
  · refine cleared.ungrouped ?_
    rintro _ ⟨⟩
    decide

end Table

end Tableflow
