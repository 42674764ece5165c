import Tableflow.Proofs.Export
import Tableflow.Proofs.Footprint
import Tableflow.Proofs.Projection

/-!
Columns that are set one after the other. An expression sees a new cell only under a column that it
reads, so two columns whose expressions do not read each other can be set in either order; a column
that is new goes away without a trace when it is dropped.
-/

namespace Tableflow

/-! ### Rows -/

namespace OrderedMap

variable {α : Type} {m : OrderedMap α} {name other : String}

/-- The same values under the same names, in whatever order. -/
def Agrees (m n : OrderedMap α) : Prop := ∀ name, m.get? name = n.get? name

theorem agrees_insert_insert (apart : name ≠ other) (m : OrderedMap α) (value value' : α) :
    ((m.insert name value).insert other value').Agrees ((m.insert other value').insert name value) := by
  intro key
  simp only [get?_insert]
  by_cases here : key = name
  · have there : key ≠ other := here ▸ apart
    rw [if_pos here, if_neg there, if_pos here]
  · rw [if_neg here, if_neg here]

theorem erase_insert_of_fresh (fresh : name ∉ m.keys) (value : α) : (m.insert name value).erase name = m := by
  have kept : ∀ entry ∈ m.entries, entry.1 ≠ name := fun entry member same =>
    fresh (same ▸ List.mem_map_of_mem member)
  apply eq_of_entries
  show (m.insert name value).entries.filter (fun entry => entry.1 ≠ name) = m.entries
  rw [entries_insert_of_fresh value fresh, List.filter_append, List.filter_eq_self.mpr (by simpa using kept)]
  simp

end OrderedMap

theorem Row.cells_eq_of_agrees {row other : Row} (agree : row.Agrees other) (names : List String) :
    row.cells names = other.cells names :=
  List.map_congr_left fun name _ => by rw [Row.cell, Row.cell, agree name]

/-- A new cell under a column that the expression does not read leaves its value alone. -/
theorem Expr.eval_insert_of_unread {e : Expr} {name : String} (unread : name ∉ e.columns) (row : Row)
    (cell : Cell) (index : Nat) : e.eval (row.insert name cell) index = e.eval row index := by
  refine eval_congr index fun read mentioned => ?_
  have apart : read ≠ name := fun same => unread (same ▸ mem_columns.mpr mentioned)
  rw [OrderedMap.get?_insert, if_neg apart]

/-- Every row has a value, where the first row is number `index`, and takes it under the column. -/
def Assigns (column : String) (e : Expr) (index : Nat) : List Row → List Row → Prop
  | [], made => made = []
  | row :: rest, made => ∃ cell later, e.eval row index = .ok cell ∧
      Assigns column e (index + 1) rest later ∧ made = row.insert column cell :: later

namespace Assigns

variable {column other : String} {e f : Expr} {index : Nat} {rows middle made : List Row}

theorem iff_evalFrom : Assigns column e index rows made ↔
    ∃ cells, Table.evalFrom e index rows = .ok cells ∧
      List.zipWith (fun (row : Row) cell => row.insert column cell) rows cells = made := by
  induction rows generalizing index made with
  | nil =>
    constructor
    · intro none
      exact ⟨[], rfl, none.symm⟩
    · rintro ⟨_, _, rfl⟩
      rfl
  | cons row rest ih =>
    constructor
    · rintro ⟨cell, _, found, onward, rfl⟩
      obtain ⟨cells, evaluated, rfl⟩ := ih.mp onward
      exact ⟨cell :: cells, bind_eq_ok.mpr ⟨cell, found, bind_eq_ok.mpr ⟨cells, evaluated, rfl⟩⟩, rfl⟩
    · rintro ⟨_, evaluated, rfl⟩
      obtain ⟨cell, found, evaluated⟩ := bind_eq_ok.mp evaluated
      obtain ⟨cells, onward, listed⟩ := bind_eq_ok.mp evaluated
      obtain rfl := pure_eq_ok.mp listed
      exact ⟨cell, _, found, ih.mpr ⟨cells, onward, rfl⟩, rfl⟩

theorem length_eq (assigned : Assigns column e index rows made) : made.length = rows.length := by
  induction rows generalizing index made with
  | nil => rw [show made = [] from assigned]
  | cons row rest ih =>
    obtain ⟨_, _, _, onward, rfl⟩ := assigned
    rw [List.length_cons, List.length_cons, ih onward]

theorem getElem?_eq (assigned : Assigns column e index rows made) {place : Nat} {row : Row}
    (here : rows[place]? = some row) :
    ∃ cell, e.eval row (index + place) = .ok cell ∧ made[place]? = some (row.insert column cell) := by
  induction rows generalizing index made place with
  | nil => cases here
  | cons head rest ih =>
    obtain ⟨cell, _, found, onward, rfl⟩ := assigned
    cases place with
    | zero =>
      obtain rfl := Option.some.inj here
      exact ⟨cell, found, rfl⟩
    | succ place =>
      rw [← Nat.succ_add_eq_add_succ]
      exact ih onward here

/-- Two columns that are set one after the other can be set the other way round, if neither
expression reads the column of the other. -/
theorem swap (apart : column ≠ other) (unread : other ∉ e.columns) (unread' : column ∉ f.columns)
    (first : Assigns column e index rows middle) (second : Assigns other f index middle made) :
    ∃ middle' made', Assigns other f index rows middle' ∧ Assigns column e index middle' made' ∧
      List.Forall₂ OrderedMap.Agrees made made' := by
  induction rows generalizing index middle made with
  | nil =>
    obtain rfl : middle = [] := first
    obtain rfl : made = [] := second
    exact ⟨[], [], rfl, rfl, .nil⟩
  | cons row rest ih =>
    obtain ⟨cell, _, found, onward, rfl⟩ := first
    obtain ⟨cell', _, found', onward', rfl⟩ := second
    obtain ⟨later, later', assigned, assigned', agree⟩ := ih onward onward'
    rw [Expr.eval_insert_of_unread unread'] at found'
    refine ⟨row.insert other cell' :: later, (row.insert other cell').insert column cell :: later',
      ⟨cell', later, found', assigned, rfl⟩, ⟨cell, later', ?_, assigned', rfl⟩,
      .cons (OrderedMap.agrees_insert_insert apart row cell cell') agree⟩
    rw [Expr.eval_insert_of_unread unread, found]

theorem map_erase (assigned : Assigns column e index rows made) (absent : ∀ row ∈ rows, column ∉ row.keys) :
    (made.map fun row => row.erase column) = rows := by
  induction rows generalizing index made with
  | nil => rw [show made = [] from assigned, List.map_nil]
  | cons row rest ih =>
    obtain ⟨cell, _, _, onward, rfl⟩ := assigned
    rw [List.forall_mem_cons] at absent
    rw [List.map_cons, OrderedMap.erase_insert_of_fresh absent.1, ih onward absent.2]

end Assigns

/-! ### Tables -/

namespace Table

variable {t middle made : Table} {columns : List String} {column other : String} {e f : Expr}

/-- The same columns, in whatever order, rows that agree one by one, and the same groups. -/
structure Agrees (t other : Table) : Prop where
  columns : t.columns.Perm other.columns
  rows : List.Forall₂ OrderedMap.Agrees t.rows other.rows
  grouping : t.grouping = other.grouping

/-- The columns of a table in which `column` has been set. -/
def columnsWith (column : String) (columns : List String) : List String :=
  if columns.contains column then columns else columns ++ [column]

theorem mem_columnsWith {name : String} : name ∈ columnsWith column columns ↔ name ∈ columns ∨ name = column := by
  unfold columnsWith
  split
  · rename_i known
    have known : column ∈ columns := by simpa using known
    exact ⟨.inl, fun here => here.elim id fun same => same ▸ known⟩
  · simp

theorem columnsWith_comm (apart : column ≠ other) (columns : List String) :
    (columnsWith other (columnsWith column columns)).Perm (columnsWith column (columnsWith other columns)) := by
  have known (first second : String) (apart : first ≠ second) :
      (columnsWith first columns).contains second = columns.contains second := by
    rw [Bool.eq_iff_iff, List.contains_iff_mem, List.contains_iff_mem, mem_columnsWith,
      or_iff_left (Ne.symm apart)]
  rw [columnsWith, known column other apart, columnsWith, columnsWith, known other column apart.symm, columnsWith]
  split <;> split
  · exact .refl _
  · exact .refl _
  · exact .refl _
  · rw [List.append_assoc, List.append_assoc]
    exact (List.Perm.swap other column []).append_left columns

theorem mutate_iff_assigns : t.mutate column e = .ok made ↔ e.columns ⊆ t.columns ∧
    ∃ rows, Assigns column e 0 t.rows rows ∧
      ofParts (columnsWith column t.columns) rows t.groupColumns = made := by
  simp only [mutate_eq_ok, evaluate, guarded_eq_ok, requireFor_eq_ok, mapError_eq_ok, Assigns.iff_evalFrom]
  constructor
  · rintro ⟨cells, ⟨present, evaluated⟩, rfl⟩
    exact ⟨present, _, ⟨cells, evaluated, rfl⟩, rfl⟩
  · rintro ⟨present, _, ⟨cells, evaluated, rfl⟩, rfl⟩
    exact ⟨cells, ⟨present, evaluated⟩, rfl⟩

theorem agrees_ofParts {columns' : List String} {rows rows' : List Row} (group : Option (List String))
    (permuted : columns.Perm columns') (agree : List.Forall₂ OrderedMap.Agrees rows rows') :
    (ofParts columns rows group).Agrees (ofParts columns' rows' group) where
  columns := permuted
  rows := agree
  grouping := by
    cases group with
    | none => rfl
    | some names =>
      refine congrArg some (Grouping.build_congr ?_)
      rw [← List.forall₂_eq_eq_eq, List.forall₂_map_left_iff, List.forall₂_map_right_iff]
      exact agree.imp fun _ _ agree => Row.cells_eq_of_agrees agree names

/-- A table with a fresh grouping is what it is made of. -/
theorem Fresh.ofParts_eq (fresh : t.Fresh) : ofParts t.columns t.rows t.groupColumns = t := by
  have grouping : t.groupColumns.map (Grouping.build t.rows) = t.grouping := by
    cases grouped : t.groupColumns with
    | none => exact (Option.map_eq_none_iff.mp grouped).symm
    | some names => exact (fresh.grouping_eq grouped).symm
  rw [ofParts, grouping]

/-- Setting two columns the other way round succeeds as well, and makes a table that agrees. -/
theorem mutate_swap (apart : column ≠ other) (unread : other ∉ e.columns) (unread' : column ∉ f.columns)
    (ended : t.mutate column e = .ok middle) (ended' : middle.mutate other f = .ok made) :
    ∃ middle' made', t.mutate other f = .ok middle' ∧ middle'.mutate column e = .ok made' ∧
      made.Agrees made' := by
  obtain ⟨present, rows, assigned, rfl⟩ := mutate_iff_assigns.mp ended
  obtain ⟨present', rows', assigned', rfl⟩ := mutate_iff_assigns.mp ended'
  obtain ⟨others, others', swapped, swapped', agree⟩ := assigned.swap apart unread unread' assigned'
  -- the second expression does not read the column that was set first, so its columns were there
  have known : f.columns ⊆ t.columns := fun name read =>
    (mem_columnsWith.mp (present' read)).resolve_right fun same => unread' (same ▸ read)
  have listed : e.columns ⊆ columnsWith other t.columns := fun name read =>
    mem_columnsWith.mpr (.inl (present read))
  refine ⟨_, _, mutate_iff_assigns.mpr ⟨known, others, swapped, rfl⟩,
    mutate_iff_assigns.mpr ⟨listed, others', swapped', rfl⟩, ?_⟩
  rw [groupColumns_ofParts, groupColumns_ofParts]
  exact agrees_ofParts _ (columnsWith_comm apart t.columns) agree

/-- Each of two columns that are set has the values of its expression in the rows as they were. -/
theorem rows_of_mutate_mutate (unread : column ∉ f.columns) (ended : t.mutate column e = .ok middle)
    (ended' : middle.mutate other f = .ok made) {index : Nat} {row : Row}
    (here : t.rows[index]? = some row) :
    ∃ cell cell', e.eval row index = .ok cell ∧ f.eval row index = .ok cell' ∧
      made.rows[index]? = some ((row.insert column cell).insert other cell') := by
  obtain ⟨_, rows, assigned, rfl⟩ := mutate_iff_assigns.mp ended
  obtain ⟨_, rows', assigned', rfl⟩ := mutate_iff_assigns.mp ended'
  obtain ⟨cell, found, there⟩ := assigned.getElem?_eq here
  obtain ⟨cell', found', there'⟩ := assigned'.getElem?_eq there
  rw [Expr.eval_insert_of_unread unread] at found'
  rw [Nat.zero_add] at found found'
  exact ⟨cell, cell', found, found', there'⟩

theorem length_of_mutate (ended : t.mutate column e = .ok made) : made.rows.length = t.rows.length := by
  obtain ⟨_, rows, assigned, rfl⟩ := mutate_iff_assigns.mp ended
  exact assigned.length_eq

theorem dropColumns_of_mutate (regular : t.Regular Eq) (absent : column ∉ t.columns)
    (ended : t.mutate column e = .ok made) : made.dropColumns [column] = .ok t := by
  obtain ⟨_, rows, assigned, rfl⟩ := mutate_iff_assigns.mp ended
  have unnamed : ∀ row ∈ t.rows, column ∉ row.keys := by
    intro row member
    rw [regular.keyed row member, Names.mem_distinct]
    exact absent
  have restored : (rows.map fun row => [column].foldl OrderedMap.erase row) = t.rows :=
    assigned.map_erase unnamed
  have columns : ((columnsWith column t.columns).filter fun name => !([column].contains name)) = t.columns := by
    have kept : ∀ name ∈ t.columns, name ≠ column := fun name member same => absent (same ▸ member)
    simpa [columnsWith, absent] using kept
  have grouping : survivingGroup t.groupColumns t.columns = t.groupColumns := by
    cases grouped : t.groupColumns with
    | none => rfl
    | some group => exact grouped ▸ survivingGroup_eq_some grouped (regular.fresh.present grouped)
  refine dropColumns_eq_ok.mpr ⟨?_, ?_⟩
  · intro name here
    exact mem_columnsWith.mpr (.inr (List.mem_singleton.mp here))
  · rw [groupColumns_ofParts]
    calc ofParts ((columnsWith column t.columns).filter fun name => !([column].contains name))
          (rows.map fun row => [column].foldl OrderedMap.erase row)
          (survivingGroup t.groupColumns
            ((columnsWith column t.columns).filter fun name => !([column].contains name)))
      _ = ofParts t.columns t.rows t.groupColumns := by rw [columns, restored, grouping]
      _ = t := regular.fresh.ofParts_eq

/-- Setting two columns of a table succeeds in one order if it does in the other, if neither expression
reads the column of the other, and then the results agree: they have the same columns and groups, and
in every row the values of the expressions in the row as it was, and its other cells. A column that is
new can be dropped again, which leaves the table as it was. -/
theorem mutates_commute (c : Context) (regular : t.Regular Eq) :
    (∀ column other e f, column ≠ other → other ∉ e.columns → column ∉ f.columns →
      let forth := (Stage.mutate column e).apply c t >>= (Stage.mutate other f).apply c
      let back := (Stage.mutate other f).apply c t >>= (Stage.mutate column e).apply c
      ((∃ made, forth = .ok made) ↔ ∃ made, back = .ok made) ∧
      ∀ made made', forth = .ok made → back = .ok made' →
        made.Agrees made' ∧ made.rows.length = t.rows.length ∧
        ∀ index row, t.rows[index]? = some row → ∃ after cell cell', made.rows[index]? = some after ∧
          e.eval row index = .ok cell ∧ after.get? column = some cell ∧
          f.eval row index = .ok cell' ∧ after.get? other = some cell' ∧
          ∀ name, name ≠ column → name ≠ other → after.get? name = row.get? name) ∧
    ∀ column e made, column ∉ t.columns → (Stage.mutate column e).apply c t = .ok made →
      (Stage.drop [column]).apply c made = .ok t := by
  refine ⟨?_, fun column e made absent ended => dropColumns_of_mutate regular absent ended⟩
  intro column other e f apart unread unread' forth back
  have swapped {made : Table} (ended : forth = .ok made) : ∃ made', back = .ok made' ∧ made.Agrees made' := by
    obtain ⟨middle, first, second⟩ := bind_eq_ok.mp ended
    obtain ⟨middle', made', first', second', agree⟩ := mutate_swap apart unread unread' first second
    exact ⟨made', bind_eq_ok.mpr ⟨middle', first', second'⟩, agree⟩
  refine ⟨⟨fun ⟨made, ended⟩ => ?_, fun ⟨made, ended⟩ => ?_⟩, ?_⟩
  · obtain ⟨made', ended', _⟩ := swapped ended
    exact ⟨made', ended'⟩
  · obtain ⟨middle, first, second⟩ := bind_eq_ok.mp ended
    obtain ⟨middle', made', first', second', _⟩ := mutate_swap apart.symm unread' unread first second
    exact ⟨made', bind_eq_ok.mpr ⟨middle', first', second'⟩⟩
  · intro made made' ended ended'
    obtain ⟨_, same, agree⟩ := swapped ended
    obtain rfl := Except.ok.inj (same.symm.trans ended')
    obtain ⟨middle, first, second⟩ := bind_eq_ok.mp ended
    refine ⟨agree, (length_of_mutate second).trans (length_of_mutate first), ?_⟩
    intro index row here
    obtain ⟨cell, cell', found, found', there⟩ := rows_of_mutate_mutate unread' first second here
    refine ⟨_, cell, cell', there, found, ?_, found', ?_, ?_⟩
    · rw [OrderedMap.get?_insert, if_neg apart, OrderedMap.get?_insert, if_pos rfl]
    · rw [OrderedMap.get?_insert, if_pos rfl]
    · intro name outside outside'
      rw [OrderedMap.get?_insert, if_neg outside', OrderedMap.get?_insert, if_neg outside]

/-- Tools are filed under their names, all else under its kind. -/
def shelf : Expr :=
  .ifElse (.binary (.comparison .equal) (.column "kind") (.constant (some (.text "tool"))))
    (.column "item") (.column "kind")

theorem mutates_commute_byKind :
    byKind.Regular Eq ∧
    (∃ made made',
      ((Stage.mutate "kind" shelf).apply .empty byKind >>= (Stage.mutate "place" .rowIndex).apply .empty) =
        .ok made ∧
      ((Stage.mutate "place" .rowIndex).apply .empty byKind >>= (Stage.mutate "kind" shelf).apply .empty) =
        .ok made' ∧
      made.Agrees made' ∧ made.rows.map OrderedMap.keys = List.replicate 4 ["kind", "item", "place"] ∧
      (made'.grouping.map fun grouping => grouping.groups.map Group.rows) = some [[0, 2], [1], [3]]) ∧
    (¬ ∃ made, ((Stage.mutate "item" (.unary .negate (.column "kind"))).apply .empty byKind >>=
      (Stage.mutate "place" .rowIndex).apply .empty) = .ok made) ∧
    ∃ made, (Stage.mutate "place" shelf).apply .empty byKind = .ok made ∧
      (Stage.drop ["place"]).apply .empty made = .ok byKind := by
  have regular : byKind.Regular Eq := by
    refine ⟨fresh_ofParts ?_, List.forall_mem_map.mpr fun _ _ => rfl⟩
    rintro _ ⟨⟩
    decide
  obtain ⟨commute, restore⟩ := mutates_commute .empty regular
  obtain ⟨_, agree⟩ := commute "kind" "place" shelf .rowIndex (by decide) (by decide) (by decide)
  obtain ⟨swap, _⟩ := commute "item" "place" (.unary .negate (.column "kind")) .rowIndex
    (by decide) (by decide) (by decide)
  refine ⟨regular, ⟨_, _, rfl, rfl, (agree _ _ rfl rfl).1, rfl, rfl⟩, ?_, _, rfl,
    restore "place" shelf _ (by decide) rfl⟩
  rw [swap]
  rintro ⟨made, ended⟩
  cases ended

end Table

end Tableflow
