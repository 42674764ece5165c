import Tableflow.Proofs.Independence

/-!
Tables from rows. Rows make a table if all of them have the names of the first one, in whatever
order. The table then keeps every cell and brings the names into the order of the first row;
otherwise the first row with other names is reported.
-/

namespace Tableflow

namespace OrderedMap

variable {α : Type} {m n : OrderedMap α}

theorem agrees_of_perm (reordered : m.entries.Perm n.entries) : m.Agrees n := by
  intro name
  ext value
  rw [get?_eq_some_iff, get?_eq_some_iff, reordered.mem_iff]

theorem Agrees.mem_keys_iff (agree : m.Agrees n) (name : String) : name ∈ m.keys ↔ name ∈ n.keys := by
  rw [OrderedMap.mem_keys_iff, OrderedMap.mem_keys_iff, agree name]

end OrderedMap

/-! ### Rows -/

namespace Row

variable {columns : List String} {before after other : Row}

/-- The names of the row are the columns, in any order. -/
def Covers (columns : List String) (row : Row) : Prop :=
  ∀ name, name ∈ row.keys ↔ name ∈ columns

theorem covers_iff_fits {row : Row} : row.Covers columns ↔ Table.fits columns row = true := by
  simp only [Table.fits, Bool.and_eq_true, List.all_eq_true, List.contains_iff_mem]
  constructor
  · intro covers
    exact ⟨fun name => (covers name).mp, fun name => (covers name).mpr⟩
  · rintro ⟨known, present⟩ name
    exact ⟨known name, present name⟩

instance (row : Row) : Decidable (row.Covers columns) := decidable_of_iff _ covers_iff_fits.symm

/-- The row has the columns for its names, in their order, and all cells of the row before. -/
structure Arranges (columns : List String) (before after : Row) : Prop where
  keys : after.keys = columns
  cells : after.Agrees before

namespace Arranges

theorem covers (arranged : Arranges columns before after) : before.Covers columns := by
  intro name
  rw [← arranged.cells.mem_keys_iff name, arranged.keys]

theorem narrows (arranged : Arranges columns before after) : Narrows columns before after :=
  ⟨arranged.keys, fun name _ => arranged.cells name⟩

theorem of_perm (reordered : before.entries.Perm other.entries)
    (arranged : Arranges columns before after) : Arranges columns other after :=
  ⟨arranged.keys, fun name => (arranged.cells name).trans (OrderedMap.agrees_of_perm reordered name)⟩

end Arranges

theorem arranges_arrange (unique : columns.Nodup) (covers : before.Covers columns) :
    Arranges columns before (Table.arrange columns before) := by
  have keys : (Table.arrange columns before).keys = columns := by
    rw [Table.keys_arrange, Names.distinct_eq_self unique]
  refine ⟨keys, fun name => ?_⟩
  by_cases listed : name ∈ columns
  · obtain ⟨cell, found⟩ := OrderedMap.mem_keys_iff.mp ((covers name).mpr listed)
    rw [Table.get?_arrange listed, Row.cell, found, Option.join_some]
  · have absent : name ∉ before.keys := fun here => listed ((covers name).mp here)
    have absent' : name ∉ (Table.arrange columns before).keys := by rwa [keys]
    rw [OrderedMap.get?_eq_none_iff.mpr absent, OrderedMap.get?_eq_none_iff.mpr absent']

end Row

/-! ### Lists of rows -/

namespace Table

variable {t made : Table} {rows others : List Row} {row : Row} {index : Nat}

/-- The names in the first row, in its order, or none if there is no row. -/
def firstNames (rows : List Row) : List String := rows.head?.elim [] OrderedMap.keys

theorem nodup_firstNames (rows : List Row) : (firstNames rows).Nodup := by
  cases rows with
  | nil => exact List.nodup_nil
  | cons first _ => exact first.nodup_keys

/-- All rows have the names of the first, in any order. -/
def Uniform (rows : List Row) : Prop := ∀ row ∈ rows, row.Covers (firstNames rows)

instance : Decidable (Uniform rows) :=
  inferInstanceAs (Decidable (∀ row ∈ rows, row.Covers (firstNames rows)))

/-- Row number `index` is the first one with other names than the first row. -/
structure FirstRagged (rows : List Row) (index : Nat) (row : Row) : Prop where
  here : rows[index]? = some row
  ragged : ¬ row.Covers (firstNames rows)
  least : ∀ earlier < index, ∀ other, rows[earlier]? = some other → other.Covers (firstNames rows)

theorem FirstRagged.not_uniform (ragged : FirstRagged rows index row) : ¬ Uniform rows :=
  fun uniform => ragged.ragged (uniform row (List.mem_of_getElem? ragged.here))

theorem uniform_of_find?
    (fitting : (rows.zipIdx.find? fun pair => !fits (firstNames rows) pair.1) = none) :
    Uniform rows := by
  intro row member
  obtain ⟨index, here⟩ := List.mem_iff_getElem?.mp member
  have kept := List.find?_eq_none.mp fitting (row, index) (List.mk_mem_zipIdx_iff_getElem?.mpr here)
  rw [Row.covers_iff_fits]
  simpa using kept

theorem firstRagged_of_find?
    (found : (rows.zipIdx.find? fun pair => !fits (firstNames rows) pair.1) = some (row, index)) :
    FirstRagged rows index row := by
  obtain ⟨unfit, position, bound, same, before⟩ := List.find?_eq_some_iff_getElem.mp found
  -- the number that was found with the row is its place in the list
  rw [List.getElem_zipIdx, Nat.zero_add] at same
  obtain ⟨rfl, rfl⟩ := Prod.mk.inj same
  refine ⟨List.getElem?_eq_getElem _, ?_, ?_⟩
  · rw [Row.covers_iff_fits]
    simpa using unfit
  · intro earlier lower other there
    obtain ⟨_, rfl⟩ := List.getElem?_eq_some_iff.mp there
    have fitting := before earlier lower
    rw [List.getElem_zipIdx] at fitting
    rw [Row.covers_iff_fits]
    simpa using fitting

/-- Rows are arranged into a table, or refused for the first ragged one. -/
theorem ofRows_cases (rows : List Row) :
    (Uniform rows ∧
      ofRows rows = .ok ⟨firstNames rows, rows.map (arrange (firstNames rows)), none⟩) ∨
    ∃ index row, FirstRagged rows index row ∧
      ofRows rows = .error (.raggedRow index (firstNames rows) row.keys) := by
  cases rows with
  | nil => exact .inl ⟨List.forall_mem_nil _, rfl⟩
  | cons first rest =>
    rw [ofRows]
    split
    · rename_i row index found
      exact .inr ⟨index, row, firstRagged_of_find? found, rfl⟩
    · rename_i fitting
      exact .inl ⟨uniform_of_find? fitting, rfl⟩

theorem ofRows_of_uniform (uniform : Uniform rows) :
    ofRows rows = .ok ⟨firstNames rows, rows.map (arrange (firstNames rows)), none⟩ := by
  obtain ⟨_, made⟩ | ⟨_, _, ragged, _⟩ := ofRows_cases rows
  · exact made
  · exact absurd uniform ragged.not_uniform

/-! ### The table of the rows -/

/-- The columns are the names of the first row, and the rows of the table are the given rows, one by
one and in their order, with the names in the order of the columns. -/
structure Restates (rows : List Row) (t : Table) : Prop where
  columns : t.columns = firstNames rows
  rows : List.Forall₂ (Row.Arranges t.columns) rows t.rows
  ungrouped : t.grouping = none

namespace Restates

theorem uniform (restated : Restates rows t) : Uniform rows := by
  have covered : List.Forall₂ (fun row kept => row.Covers t.columns ∧ Row.Arranges t.columns row kept)
      rows t.rows := restated.rows.imp fun _ _ arranged => ⟨arranged.covers, arranged⟩
  rw [Uniform, ← restated.columns]
  exact ((List.forall₂_and_left _ _).mp covered).1

/-- To restate rows is to project the table that would have them as they are. -/
theorem projects (restated : Restates rows t) :
    Projects (firstNames rows) ⟨firstNames rows, rows, none⟩ t where
  columns := restated.columns
  rows := restated.rows.imp fun _ _ arranged => restated.columns ▸ arranged.narrows
  grouped _ grouped := by cases grouped
  ungrouped _ := restated.ungrouped

theorem unique (restated : Restates rows t) (restated' : Restates rows made) : t = made :=
  restated.projects.unique restated'.projects

end Restates

theorem Uniform.restates (uniform : Uniform rows) :
    Restates rows ⟨firstNames rows, rows.map (arrange (firstNames rows)), none⟩ where
  columns := rfl
  rows := by
    rw [List.forall₂_map_right_iff, List.forall₂_same]
    exact fun row member => Row.arranges_arrange (nodup_firstNames rows) (uniform row member)
  ungrouped := rfl

theorem ofRows_eq_ok_iff : ofRows rows = .ok t ↔ Restates rows t := by
  constructor
  · intro made
    obtain ⟨uniform, same⟩ | ⟨_, _, _, failed⟩ := ofRows_cases rows
    · obtain rfl := Except.ok.inj (same.symm.trans made)
      exact uniform.restates
    · cases failed.symm.trans made
  · intro restated
    have uniform := restated.uniform
    rw [ofRows_of_uniform uniform, uniform.restates.unique restated]

/-! ### Names in another order -/

/-- The rows but for the order of the names in rows after the first. -/
structure Reordered (rows others : List Row) : Prop where
  first : others.head? = rows.head?
  rows : List.Forall₂ (fun row other => row.entries.Perm other.entries) rows others

theorem arranges_of_reordered {columns : List String} {kept : List Row}
    (reordered : List.Forall₂ (fun row other => row.entries.Perm other.entries) rows others)
    (arranged : List.Forall₂ (Row.Arranges columns) rows kept) :
    List.Forall₂ (Row.Arranges columns) others kept := by
  induction reordered generalizing kept with
  | nil => exact arranged
  | cons same _ ih =>
    obtain _ | ⟨first, later⟩ := arranged
    exact .cons (first.of_perm same) (ih later)

theorem Restates.of_reordered (reordered : Reordered rows others) (restated : Restates rows t) :
    Restates others t where
  columns := by rw [restated.columns, firstNames, firstNames, reordered.first]
  rows := arranges_of_reordered reordered.rows restated.rows
  ungrouped := restated.ungrouped

/-- Rows make a table if and only if all have the names of the first. The table is the one that
restates them, which no reordering of names after the first row changes; other rows are refused with
the number of the first that has other names, the names expected and those found. -/
theorem uniform_rows_make_table (rows : List Row) :
    ((∃ t, ofRows rows = .ok t) ↔ Uniform rows) ∧
    (∀ t, ofRows rows = .ok t ↔ Restates rows t) ∧
    (¬ Uniform rows → ∃ index row, FirstRagged rows index row ∧
      ofRows rows = .error (.raggedRow index (firstNames rows) row.keys)) ∧
    ∀ others, Reordered rows others → ∀ t, ofRows rows = .ok t → ofRows others = .ok t := by
  refine ⟨⟨?_, ?_⟩, fun _ => ofRows_eq_ok_iff, ?_, ?_⟩
  · rintro ⟨t, made⟩
    exact (ofRows_eq_ok_iff.mp made).uniform
  · exact fun uniform => ⟨_, ofRows_of_uniform uniform⟩
  · intro uneven
    obtain ⟨uniform, _⟩ | refused := ofRows_cases rows
    · exact absurd uniform uneven
    · exact refused
  · intro others reordered t made
    exact ofRows_eq_ok_iff.mpr ((ofRows_eq_ok_iff.mp made).of_reordered reordered)

-- Readings at two places, one of them also with its names in another order, and one that has
-- another name in place of theirs.

def weir : Row := .ofList [("place", some (.text "weir")), ("level", some (.number 3))]

def lock : Row := .ofList [("place", some (.text "lock")), ("level", none)]

def lockTurned : Row := .ofList [("level", none), ("place", some (.text "lock"))]

def sounding : Row := .ofList [("level", none), ("depth", some (.number 3))]

theorem uniform_rows_make_table_readings :
    Uniform [weir, lockTurned] ∧ Reordered [weir, lockTurned] [weir, lock] ∧
    (∃ t, Restates [weir, lockTurned] t ∧ t.columns = ["place", "level"] ∧
      ofRows [weir, lockTurned] = .ok t ∧ ofRows [weir, lock] = .ok t) ∧
    ¬ Uniform [weir, lockTurned, sounding, weir] ∧
    FirstRagged [weir, lockTurned, sounding, weir] 2 sounding ∧
    ofRows [weir, lockTurned, sounding, weir] =
      .error (.raggedRow 2 ["place", "level"] ["level", "depth"]) := by
  have uniform : Uniform [weir, lockTurned] := by decide
  have reordered : Reordered [weir, lockTurned] [weir, lock] :=
    ⟨rfl, .cons (.refl _) (.cons (.swap _ _ _) .nil)⟩
  have uneven : ¬ Uniform [weir, lockTurned, sounding, weir] := by decide
  have evaluated : ofRows [weir, lockTurned, sounding, weir] =
      .error (.raggedRow 2 ["place", "level"] ["level", "depth"]) := rfl
  obtain ⟨accepts, restates, _, keeps⟩ := uniform_rows_make_table [weir, lockTurned]
  obtain ⟨_, _, refuses, _⟩ := uniform_rows_make_table [weir, lockTurned, sounding, weir]
  obtain ⟨t, made⟩ := accepts.mpr uniform
  have restated := (restates t).mp made
  obtain ⟨index, row, ragged, refused⟩ := refuses uneven
  obtain ⟨rfl, _, _⟩ := TableError.raggedRow.inj (Except.error.inj (evaluated.symm.trans refused))
  obtain rfl := Option.some.inj ragged.here
  exact ⟨uniform, reordered, ⟨t, restated, restated.columns, made, keeps _ reordered t made⟩, uneven,
    ragged, evaluated⟩

end Table

end Tableflow
