import Tableflow.Proofs.UniformRows

/-!
Tables are read back from JSON as they were written, but for what JSON has no form for: datetimes
come back as text, zeros without their sign, and groupings not at all.
-/

namespace Tableflow

/-! ### Cells -/

theorem Number.toInt?_zero {x : Float} (zero : x = 0 ∨ x = -0) : toInt? x = some 0 := by
  have finite : x.isFinite = true := by rcases zero with rfl | rfl <;> rfl
  obtain ⟨d, decoded⟩ := exists_decode finite
  have none : d.mantissa = 0 := (mantissa_eq_zero_iff decoded).mpr zero
  simp only [toInt?, decoded, none, Nat.zero_mul, Nat.zero_mod, if_true, Nat.zero_div]
  cases d.negative <;> rfl

namespace Cell

variable {cell : Cell}

/-- The cell, a datetime as its text. -/
def undated : Cell → Cell
  | some (.datetime d) => some (.text d.toText)
  | cell => cell

theorem ofJson_of_number? {json : Json} {x : Float} (number : json.number? = some x)
    (finite : x.isFinite = true) : ofJson json = .ok (some (.number x)) := by
  cases json with
  | int n =>
    obtain rfl := Option.some.inj number
    exact if_pos finite
  | float y =>
    obtain rfl := Option.some.inj number
    exact if_pos finite
  | _ => cases number

theorem ofJson_toJson (finite : cell.Numbers Number.IsFinite) :
    ofJson cell.toJson = .ok cell.undated.unsigned := by
  match cell with
  | none => rfl
  | some (.logical _) => rfl
  | some (.number x) =>
    exact ofJson_of_number? (Number.number?_numberToJson finite) (Number.isFinite_unsigned finite)
  | some (.text _) => rfl
  | some (.datetime _) => rfl

theorem numberToJson_unsigned (x : Float) : numberToJson (Number.unsigned x) = numberToJson x := by
  by_cases signed : x = -0
  · subst signed
    rw [show Number.unsigned (-0) = 0 from if_pos rfl, numberToJson, numberToJson,
      Number.toInt?_zero (.inl rfl), Number.toInt?_zero (.inr rfl)]
    rfl
  · rw [Number.unsigned_eq_self signed]

/-- What comes back is written in the same way. -/
theorem toJson_undated (cell : Cell) : cell.undated.unsigned.toJson = cell.toJson := by
  match cell with
  | none => rfl
  | some (.logical _) => rfl
  | some (.number x) => exact numberToJson_unsigned x
  | some (.text _) => rfl
  | some (.datetime _) => rfl

theorem undated_eq_self (other : ∀ d, cell ≠ some (.datetime d)) : cell.undated = cell := by
  match cell with
  | none => rfl
  | some (.logical _) => rfl
  | some (.number _) => rfl
  | some (.text _) => rfl
  | some (.datetime d) => exact absurd rfl (other d)

theorem undated_beq (finite : cell.Numbers Number.IsFinite) :
    (cell.undated.unsigned == cell.undated) = true := by
  apply unsigned_beq
  match cell with
  | none => trivial
  | some (.logical _) => trivial
  | some (.number x) => exact finite
  | some (.text _) => trivial
  | some (.datetime _) => trivial

end Cell

/-! ### Rows and tables -/

namespace Table

variable {t : Table} {rows : List Row} {columns : List String}

/-- The row as it comes back. -/
def rowBack (row : Row) : Row := row.map fun cell => cell.undated.unsigned

theorem rowOfJson_rowToJson {row : Row} (finite : row.Numbers Number.IsFinite) :
    rowOfJson (rowToJson row) = .ok (rowBack row) := by
  have read (entries : List (String × Cell)) (finite : ∀ entry ∈ entries, entry.2.Numbers Number.IsFinite) :
      entriesOfJson (entries.map fun entry => (entry.1, entry.2.toJson)) =
        .ok (entries.map fun entry => (entry.1, entry.2.undated.unsigned)) := by
    induction entries with
    | nil => rfl
    | cons entry rest ih =>
      rw [List.forall_mem_cons] at finite
      rw [List.map_cons, entriesOfJson, Cell.ofJson_toJson finite.1, ih finite.2]
      rfl
  have written : rowToJson row = .object (row.entries.map fun entry => (entry.1, entry.2.toJson)) := rfl
  rw [written, rowOfJson, read row.entries finite]
  exact congrArg Except.ok (OrderedMap.ofList_entries (rowBack row))

theorem rowsOfJson_map {index : Nat} (finite : ∀ row ∈ rows, row.Numbers Number.IsFinite) :
    rowsOfJson index (rows.map rowToJson) = .ok (rows.map rowBack) := by
  induction rows generalizing index with
  | nil => rfl
  | cons row rest ih =>
    rw [List.forall_mem_cons] at finite
    rw [List.map_cons, rowsOfJson, rowOfJson_rowToJson finite.1, ih finite.2]
    rfl

/-- Rows with the same names in the same order make a table as they are. -/
theorem ofRows_eq (nonempty : rows ≠ []) (named : ∀ row ∈ rows, row.keys = columns) :
    ofRows rows = .ok ⟨columns, rows, none⟩ := by
  have first : columns = firstNames rows := by
    cases rows with
    | nil => exact absurd rfl nonempty
    | cons first rest => exact (named first List.mem_cons_self).symm
  have kept : List.Forall₂ (Row.Arranges columns) rows rows :=
    List.forall₂_same.mpr fun row member => ⟨named row member, fun _ => rfl⟩
  exact ofRows_eq_ok_iff.mpr ⟨first, kept, rfl⟩

theorem keys_rowBack (row : Row) : (rowBack row).keys = row.keys := OrderedMap.keys_map _ row

theorem cell_rowBack (row : Row) (name : String) :
    (rowBack row).cell name = (row.cell name).undated.unsigned := by
  rw [Row.cell, rowBack, OrderedMap.get?_map, Row.cell]
  cases row.get? name <;> rfl

theorem rowToJson_rowBack (row : Row) : rowToJson (rowBack row) = rowToJson row := by
  simp [rowToJson, rowBack, OrderedMap.map, Cell.toJson_undated]

theorem ofJson_toJson (nonempty : t.rows ≠ []) (named : ∀ row ∈ t.rows, row.keys = t.columns)
    (finite : ∀ row ∈ t.rows, row.Numbers Number.IsFinite) :
    ofJson t.toJson = .ok ⟨t.columns, t.rows.map rowBack, none⟩ := by
  have back : ∀ row ∈ t.rows.map rowBack, row.keys = t.columns :=
    List.forall_mem_map.mpr fun row member => (keys_rowBack row).trans (named row member)
  rw [toJson, ofJson, rowsOfJson_map finite]
  show (ofRows (t.rows.map rowBack)).mapError _ = _
  rw [ofRows_eq (by simpa using nonempty) back]
  rfl

theorem rowBack_beq {row : Row} (finite : row.Numbers Number.IsFinite)
    (undated : ∀ cell ∈ row.values, cell.undated = cell) : (rowBack row == row) = true := by
  refine map_beq_self fun entry member => ?_
  have plain : entry.2.undated = entry.2 := undated entry.2 (List.mem_map_of_mem member)
  have same := Cell.undated_beq (finite entry member)
  rw [plain] at same
  change (entry.1 == entry.1 && entry.2.undated.unsigned == entry.2) = true
  rw [beq_self_eq_true, plain, same, Bool.and_self]

/-- A table with rows, keyed by distinct columns and with finite numbers, comes back from JSON
without its grouping: the same columns, and row by row the same cells, where datetimes have become
text. It is then written as before, and equals the table if that has neither grouping nor
datetimes. -/
theorem table_document_round_trip (nonempty : t.rows ≠ []) (unique : t.columns.Nodup)
    (keyed : t.Keyed Eq) (finite : ∀ row ∈ t.rows, row.Numbers Number.IsFinite) :
    ∃ back, ofJson t.toJson = .ok back ∧ back.grouping = none ∧ back.columns = t.columns ∧
      List.Forall₂ (fun row again => again.keys = row.keys ∧
        ∀ name, (again.cell name == (row.cell name).undated) = true) t.rows back.rows ∧
      back.toJson = t.toJson ∧
      (t.grouping = none → (∀ row ∈ t.rows, ∀ cell ∈ row.values, ∀ d, cell ≠ some (.datetime d)) →
        (back == t) = true) := by
  have named : ∀ row ∈ t.rows, row.keys = t.columns := fun row member => by
    rw [keyed row member, Names.distinct_eq_self unique]
  refine ⟨_, ofJson_toJson nonempty named finite, rfl, rfl, ?_, ?_, ?_⟩
  · rw [List.forall₂_map_right_iff, List.forall₂_same]
    intro row member
    refine ⟨keys_rowBack row, fun name => ?_⟩
    rw [cell_rowBack]
    exact Cell.undated_beq ((finite row member).cell name)
  · simp [toJson, rowToJson_rowBack]
  · intro ungrouped undated
    have rows : (t.rows.map rowBack == t.rows) = true := map_beq_self fun row member =>
      rowBack_beq (finite row member) fun cell here => Cell.undated_eq_self (undated row member cell here)
    obtain ⟨columns, _, _⟩ := t
    obtain rfl := ungrouped
    change (columns == columns && (_ == _ && true)) = true
    rw [beq_self_eq_true, rows, Bool.and_self, Bool.and_self]

/-- Two visits with a time that may be missing, grouped by it. -/
def visits (first : Cell) : Table :=
  ofParts ["when", "size"]
    [.ofList [("when", first), ("size", some (.number (-0)))],
      .ofList [("when", none), ("size", some (.number 9e15))]] (some ["when"])

theorem table_document_round_trip_visits :
    (∃ back, ofJson (visits (some (.datetime .leap))).toJson = .ok back ∧ back.grouping = none ∧
      List.Forall₂ (fun row again => (again.cell "when" == (row.cell "when").undated) = true)
        (visits (some (.datetime .leap))).rows back.rows ∧
      ((visits (some (.datetime .leap))).rows.map fun row => (row.cell "when").undated) =
        [some (.text "+12345-06-30T23:59:60.500"), none] ∧
      back.toJson = (visits (some (.datetime .leap))).toJson) ∧
    ∃ back, ofJson (visits (some (.text "late"))).ungroup.toJson = .ok back ∧
      (back == (visits (some (.text "late"))).ungroup) = true := by
  have nonempty (first : Cell) : (visits first).rows ≠ [] := List.cons_ne_nil _ _
  have keyed (first : Cell) : (visits first).Keyed Eq :=
    List.forall_mem_cons.mpr ⟨rfl, List.forall_mem_singleton.mpr rfl⟩
  constructor
  · obtain ⟨back, read, ungrouped, _, rows, written, _⟩ :=
      @table_document_round_trip (visits (some (.datetime .leap))) (nonempty _) (by decide) (keyed _)
        (by decide)
    exact ⟨back, read, ungrouped, rows.imp fun _ _ same => same.2 "when", rfl, written⟩
  · obtain ⟨back, read, _, _, _, _, same⟩ :=
      @table_document_round_trip (visits (some (.text "late"))).ungroup (nonempty _) (by decide) (keyed _)
        (by decide)
    refine ⟨back, read, same rfl ?_⟩
    have values : (visits (some (.text "late"))).ungroup.rows.map OrderedMap.values =
        [[some (.text "late"), some (.number (-0))], [none, some (.number 9e15)]] := rfl
    intro row member
    have here := List.mem_map_of_mem (f := OrderedMap.values) member
    rw [values] at here
    rcases List.mem_pair.mp here with same | same <;> simp [same]

end Table

end Tableflow
