import Tableflow.Proofs.Export
import Tableflow.Proofs.NumberText
import Tableflow.Proofs.Numbers
import Tableflow.Proofs.Records

/-!
Tables are read back from comma-separated text as they were written, with every cell of its kind,
although the kinds are not written. Only text that looks like another kind is lost.
-/

namespace Tableflow

open Number (splitSign)

/-! ### Fields -/

theorem Text.trim_eq_self {s : String} (shown : ∀ c ∈ s.toList, isBlank c = false) : trim s = s := by
  rw [trim, trimChars_eq_self shown, String.ofList_toList]

/-- The hyphen behind the year ends its digits, so that the text of a datetime is no number. -/
theorem Datetime.read?_toChars (d : Datetime) : Number.Literal.read? d.toChars = none := by
  obtain ⟨tail, chars⟩ : ∃ tail, d.toChars = yearChars d.date.year ++ '-' :: tail := ⟨_, toChars_eq d⟩
  obtain ⟨negative, sign⟩ : ∃ negative, splitSign (yearChars d.date.year ++ '-' :: tail) =
      (negative, padded 4 d.date.year.natAbs ++ '-' :: tail) := by
    unfold yearChars
    split
    · exact ⟨true, rfl⟩
    split
    · exact ⟨false, Number.splitSign_signChars (fun _ => isDigit_of_mem_padded) (padded_ne_nil _ _) false _⟩
    · exact ⟨false, rfl⟩
  have split : Number.splitDigits? (padded 4 d.date.year.natAbs ++ '-' :: tail) =
      some (padded 4 d.date.year.natAbs, [], '-' :: tail) :=
    Number.splitDigits?_whole (fun _ => isDigit_of_mem_padded) (padded_ne_nil _ _) rfl (by simp)
  rw [chars, Number.read?_of_split sign split]
  rfl

theorem Datetime.ofText_toText (d : Datetime) : Number.ofText d.toText = none := by
  have shown : ∀ c ∈ d.toChars, Text.isBlank c = false := by
    simpa using d.shown_toChars
  apply Number.ofText_of_unread
  rw [toText, String.toList_ofList, Text.trimChars_eq_self shown, d.read?_toChars]

namespace Cell

theorem infer_of_shown {s : String} (shown : ∀ c ∈ s.toList, Text.isBlank c = false)
    (other : s ≠ "" ∧ s ≠ "true" ∧ s ≠ "false") :
    infer s = (Number.ofText s).or (((Datetime.ofText? s).map Value.datetime).or (some (.text s))) := by
  simp only [infer, Text.trim_eq_self shown, other, if_false]
  rfl

theorem infer_number {x : Float} (finite : x.isFinite = true) : infer (Number.toText x) = some (.number x) := by
  have read := Number.ofText_toText finite
  have other {s : String} (unread : Number.ofText s = none) : Number.toText x ≠ s := by
    rintro rfl
    rw [read] at unread
    cases unread
  obtain ⟨d, decoded⟩ := Number.exists_decode finite
  rw [infer_of_shown (fun c here => ?_) ⟨other rfl, other rfl, other rfl⟩, read]
  · rfl
  · rw [Number.toText, String.toList_ofList] at here
    exact Number.shown_toChars decoded here

theorem infer_datetime (d : Datetime) : infer d.toText = some (.datetime d.settled) := by
  have read := d.ofText?_toText
  have other {s : String} (unread : Datetime.ofText? s = none) : d.toText ≠ s := by
    rintro rfl
    rw [read] at unread
    cases unread
  have shown : ∀ c ∈ d.toText.toList, Text.isBlank c = false := by
    rw [Datetime.toText, String.toList_ofList]
    simpa using d.shown_toChars
  rw [infer_of_shown shown ⟨other rfl, other rfl, other rfl⟩, d.ofText_toText, read]
  rfl

/-- The text of a cell stands for the cell: of a finite number, a regular datetime, and of every text
that stands for itself. -/
theorem infer_toText {cell : Cell} (finite : cell.Numbers Number.IsFinite)
    (regular : ∀ d, cell = some (.datetime d) → d.IsRegular)
    (text : ∀ s, cell = some (.text s) → infer s = some (.text s)) : infer cell.toText = cell := by
  match cell with
  | none => rfl
  | some (.logical true) => rfl
  | some (.logical false) => rfl
  | some (.number x) => exact infer_number finite
  | some (.text s) => exact text s rfl
  | some (.datetime d) =>
    show infer d.toText = _
    rw [infer_datetime, Datetime.settled_eq_self_iff.mpr (regular d rfl)]

end Cell

/-! ### Tables -/

namespace Table

variable {t : Table} {columns : List String}

theorem symbols_toUTF8 (s : String) : Text.symbols s.toUTF8 = Csv.symbolsOf s.toList := by
  have valid : String.fromUTF8? s.toUTF8 = some s := dif_pos s.isValidUTF8
  rw [Text.symbols, valid]
  rfl

theorem rowOfCsv_eq {row : Row} (named : row.keys = columns)
    (legible : ∀ cell ∈ row.values, Cell.infer cell.toText = cell) {record : Csv.Record}
    (fields : record.fields = (row.values.map Cell.toText).map fun text => Csv.symbolsOf text.toList)
    (number : Nat) : rowOfCsv columns number record = .ok row := by
  have length : record.fields.length = columns.length := by
    rw [fields, ← named, List.length_map, List.length_map, length_values]
  have values : (row.values.map Cell.toText).map Cell.infer = row.values := by
    rw [List.map_map, Function.comp_def, List.map_congr_left legible, List.map_id']
  have entries : columns.zip row.values = row.entries := (List.zip_of_prod named rfl).symm
  simp only [rowOfCsv, length, if_true, Csv.texts_of_fields fields, values, entries, OrderedMap.ofList_entries]

theorem ofCsvRecords_eq (unique : t.columns.Nodup) (trimmed : ∀ name ∈ t.columns, Text.trim name = name)
    (named : ∀ row ∈ t.rows, row.keys = t.columns)
    (legible : ∀ row ∈ t.rows, ∀ cell ∈ row.values, Cell.infer cell.toText = cell)
    {records : List Csv.Record}
    (fields : records.map Csv.Record.fields =
      (t.columns :: t.rows.map fun row => row.values.map Cell.toText).map fun record =>
        record.map fun text => Csv.symbolsOf text.toList) :
    ofCsvRecords records = .ok ⟨t.columns, t.rows, none⟩ := by
  obtain ⟨header, body, rfl, first, others⟩ := List.map_eq_cons_iff.mp fields
  have columns : t.columns.map Text.trim = t.columns := by
    rw [List.map_congr_left trimmed, List.map_id']
  rw [ofCsvRecords, bind_eq_ok]
  refine ⟨t.columns, mapError_eq_ok.mpr (Csv.texts_of_fields first 0), ?_⟩
  simp only [columns, Names.firstRepeat?_eq_none_iff.mpr unique]
  rw [bind_eq_ok]
  refine ⟨t.rows, mapM_zipIdx_eq_ok Csv.Record.fields
    (fun row => (row.values.map Cell.toText).map fun text => Csv.symbolsOf text.toList) ?_ ?_ 0, rfl⟩
  · rw [others, List.map_map]
    rfl
  · intro record row here same index
    exact rowOfCsv_eq (named row here) (legible row here) same _

theorem fields_records_toCsv (nonempty : t.columns ≠ []) (unique : t.columns.Nodup)
    (unmarked : ∀ name, t.columns.head? = some name → name.toList.head? ≠ some '\ufeff')
    (keyed : t.Keyed List.Perm) :
    (Csv.records (Csv.symbolsOf t.toCsv.chars)).map Csv.Record.fields =
      (t.columns :: t.rows.map fun row => row.values.map Cell.toText).map fun record =>
        record.map fun text => Csv.symbolsOf text.toList := by
  have even := length_csvRecords keyed unique
  have listed : t.csvRecords = t.columns :: t.rows.map fun row => row.values.map Cell.toText := by
    simp [csvRecords, nonempty]
  rw [toCsv, listed]
  rw [listed, List.forall_mem_cons] at even
  obtain ⟨first, others, columns⟩ := List.exists_cons_of_ne_nil nonempty
  rw [columns] at even unmarked ⊢
  exact Csv.fields_records_write even.2 (unmarked first rfl)

/-- A table whose cells stand for themselves in their texts comes back. -/
theorem ofCsv_toCsv (ungrouped : t.grouping = none) (nonempty : t.columns ≠ [])
    (unique : t.columns.Nodup) (trimmed : ∀ name ∈ t.columns, Text.trim name = name)
    (unmarked : ∀ name, t.columns.head? = some name → name.toList.head? ≠ some '\ufeff')
    (keyed : t.Keyed Eq)
    (legible : ∀ row ∈ t.rows, ∀ cell ∈ row.values, Cell.infer cell.toText = cell) :
    ofCsv t.toCsv.text.toUTF8 = .ok t := by
  have named : ∀ row ∈ t.rows, row.keys = t.columns := fun row here => by
    rw [keyed row here, Names.distinct_eq_self unique]
  have fields := fields_records_toCsv nonempty unique unmarked fun row here => .of_eq (keyed row here)
  rw [ofCsv, symbols_toUTF8, Csv.Output.text, String.toList_ofList,
    ofCsvRecords_eq unique trimmed named legible fields, ← ungrouped]

/-- An ungrouped table with columns that are distinct and have no blanks at their ends, the first
without a byte order mark, is written as comma-separated text and comes back from it: the same
columns and rows, every cell of its kind, if its numbers are finite, its texts stand for themselves and
it has no leap seconds but at the end of a minute. -/
theorem csv_restores_table (ungrouped : t.grouping = none) (nonempty : t.columns ≠ [])
    (unique : t.columns.Nodup) (trimmed : ∀ name ∈ t.columns, Text.trim name = name)
    (unmarked : ∀ name, t.columns.head? = some name → name.toList.head? ≠ some '\ufeff')
    (keyed : t.Keyed Eq) (finite : ∀ row ∈ t.rows, row.Numbers Number.IsFinite)
    (regular : ∀ row ∈ t.rows, ∀ d, some (.datetime d) ∈ row.values → d.IsRegular)
    (texts : ∀ row ∈ t.rows, ∀ s, some (.text s) ∈ row.values → Cell.infer s = some (.text s)) :
    t.toCsv.error = none ∧ ofCsv t.toCsv.text.toUTF8 = .ok t := by
  have permuted : t.Keyed List.Perm := fun row here => .of_eq (keyed row here)
  refine ⟨(error_toCsv_eq_none_iff permuted).mpr (.inr unique), ?_⟩
  refine ofCsv_toCsv ungrouped nonempty unique trimmed unmarked keyed fun row here cell value => ?_
  obtain ⟨entry, listed, rfl⟩ := List.mem_map.mp value
  exact Cell.infer_toText (finite row here entry listed)
    (fun d same => regular row here d (same ▸ value)) fun s same => texts row here s (same ▸ value)

def event (time size note : Cell) : Row := .ofList [("time", time), ("size, \"net\"", size), ("note", note)]

/-- Events long past and far ahead, with the least and the greatest number, a negative zero, and notes
that need quotes. -/
def chronicle : Table :=
  ⟨["time", "size, \"net\"", "note"],
    [event (some (.datetime ⟨⟨-43, 3, 15, by decide, by decide, by decide⟩, 11, 30, 0, 250000, by decide⟩))
        (some (.number (.ofBits 1))) (some (.text " et tu,\n\"Brute\"? ")),
      event (some (.datetime ⟨⟨20000, 12, 31, by decide, by decide, by decide⟩, 23, 59, 59, 1000000000, by decide⟩))
        (some (.number (.ofBits 0x7fefffffffffffff))) (some (.logical false)),
      event none (some (.number (-0))) (some (.text "1,5")),
      event (some (.number 0.1)) none none],
    none⟩

theorem csv_restores_chronicle :
    chronicle.toCsv.error = none ∧ ofCsv chronicle.toCsv.text.toUTF8 = .ok chronicle := by
  have values (time size note : Cell) : (event time size note).values = [time, size, note] := rfl
  refine csv_restores_table rfl (List.cons_ne_nil _ _) (by decide) (by decide) ?_ ?_ (by decide) ?_ ?_
  · rintro _ ⟨⟩
    decide
  · have named (time size note : Cell) : (event time size note).keys = Names.distinct chronicle.columns := rfl
    simp [Keyed, chronicle, named]
  · simp [chronicle, values, Datetime.IsRegular, Datetime.nanosPerSecond]
  · have quoted : Cell.infer " et tu,\n\"Brute\"? " = some (.text " et tu,\n\"Brute\"? ") := rfl
    have comma : Cell.infer "1,5" = some (.text "1,5") := rfl
    simp [chronicle, values, quoted, comma]

/-- A table of one time. -/
def watch (d : Datetime) : Table := ⟨["time"], [.ofList [("time", some (.datetime d))]], none⟩

/-- In the middle of a minute a leap second is written as the second after it, and read as that. -/
theorem csv_moves_midLeap :
    let t := watch .midLeap
    t.grouping = none ∧ t.columns ≠ [] ∧ t.columns.Nodup ∧
    (∀ name ∈ t.columns, Text.trim name = name) ∧
    (∀ name, t.columns.head? = some name → name.toList.head? ≠ some '\ufeff') ∧
    t.Keyed Eq ∧ (∀ row ∈ t.rows, row.Numbers Number.IsFinite) ∧
    (∀ row ∈ t.rows, ∀ s, some (.text s) ∈ row.values → Cell.infer s = some (.text s)) ∧
    t.toCsv.error = none ∧ ofCsv t.toCsv.text.toUTF8 = .ok (watch Datetime.midLeap.settled) ∧
    ofCsv t.toCsv.text.toUTF8 ≠ .ok t := by
  intro t
  have unmarked : ∀ name, t.columns.head? = some name → name.toList.head? ≠ some '\ufeff' := by
    rintro _ ⟨⟩
    decide
  have read : ofCsv t.toCsv.text.toUTF8 = .ok (watch Datetime.midLeap.settled) := by
    have written : t.toCsv = (watch Datetime.midLeap.settled).toCsv := by rfl
    rw [written]
    refine ofCsv_toCsv rfl (List.cons_ne_nil _ _) (by decide) (by decide) unmarked
      (List.forall_mem_singleton.mpr rfl) (List.forall_mem_singleton.mpr ?_)
    exact List.forall_mem_singleton.mpr (Cell.infer_datetime _)
  refine ⟨rfl, List.cons_ne_nil _ _, by decide, by decide, unmarked, ?_, by decide, ?_, rfl, read, ?_⟩
  · exact List.forall_mem_singleton.mpr rfl
  · refine List.forall_mem_singleton.mpr fun s text => ?_
    cases List.mem_singleton.mp text
  · rw [read]
    intro same
    obtain ⟨rows, -⟩ := List.cons.inj (Table.mk.inj (Except.ok.inj same)).2.1
    have settled := congrArg (fun row : Row => row.get? "time") rows
    cases settled

end Table

end Tableflow
