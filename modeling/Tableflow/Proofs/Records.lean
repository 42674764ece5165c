import Tableflow.Csv.Writer
import Tableflow.Proofs.Stages

/-!
Records that are written as comma-separated text are read back: fields with commas, quotes and line
ends in them, empty fields, and records of a single empty field.
-/

namespace Tableflow

/-- Items that correspond to the results one by one, whatever their numbers, are worked off. -/
theorem mapM_zipIdx_eq_ok {ε α β γ : Type} {f : α × Nat → Except ε β} (g : α → γ) (h : β → γ)
    {items : List α} {results : List β} (same : items.map g = results.map h)
    (each : ∀ item, ∀ result ∈ results, g item = h result → ∀ index, f (item, index) = .ok result)
    (start : Nat) : (items.zipIdx start).mapM f = .ok results := by
  rw [mapM_eq_ok]
  induction results generalizing items start with
  | nil =>
    obtain rfl := List.map_eq_nil_iff.mp same
    rfl
  | cons result results ih =>
    obtain ⟨item, items, rfl, first, same⟩ := List.map_eq_cons_iff.mp same
    rw [List.zipIdx_cons, List.map_cons, each item result List.mem_cons_self first,
      ih same (fun item result later => each item result (List.mem_cons_of_mem _ later)), List.map_cons]

namespace Csv

open Text (Symbol)

variable {here place : Place} {mode : Mode} {fields : List (List Symbol)} {field : List Symbol}
  {rest : List Symbol} {cs : List Char}

/-- Characters as they are read. -/
def symbolsOf (cs : List Char) : List Symbol := cs.map .char

def Place.past (place : Place) (cs : List Char) : Place := (symbolsOf cs).foldl Place.after place

@[simp] theorem symbolsOf_nil : symbolsOf [] = [] := rfl

@[simp] theorem symbolsOf_cons (c : Char) (cs : List Char) :
    symbolsOf (c :: cs) = .char c :: symbolsOf cs := rfl

@[simp] theorem symbolsOf_append (cs ds : List Char) :
    symbolsOf (cs ++ ds) = symbolsOf cs ++ symbolsOf ds := List.map_append

theorem Place.past_append (place : Place) (cs ds : List Char) :
    place.past (cs ++ ds) = (place.past cs).past ds := by
  rw [past, symbolsOf_append, List.foldl_append]
  rfl

/-! ### Single symbols -/

theorem recordsFrom_comma (outside : mode ≠ .quoted) :
    recordsFrom here place mode fields field (.char ',' :: rest) =
      recordsFrom (here.past [',']) place .field (field.reverse :: fields) [] rest := by
  cases mode with
  | quoted => exact absurd rfl outside
  | record => rfl
  | field => rfl
  | plain => rfl
  | closed => rfl

theorem recordsFrom_lineFeed (outside : mode ≠ .quoted) (started : mode ≠ .record) :
    recordsFrom here place mode fields field (.char '\n' :: rest) =
      ⟨place, (field.reverse :: fields).reverse⟩ ::
        recordsFrom (here.past ['\n']) (here.past ['\n']) .record [] [] rest := by
  cases mode with
  | quoted => exact absurd rfl outside
  | record => exact absurd rfl started
  | field => rfl
  | plain => rfl
  | closed => rfl

theorem recordsFrom_ordinary {c : Char} (ordinary : needsQuotes [c] = false) (outside : mode ≠ .quoted) :
    recordsFrom here place mode fields field (.char c :: rest) =
      recordsFrom (here.past [c]) place .plain fields (.char c :: field) rest := by
  simp only [needsQuotes, List.any_cons, List.any_nil, Bool.or_false, Bool.or_eq_false_iff,
    decide_eq_false_iff_not] at ordinary
  obtain ⟨⟨⟨comma, quote⟩, carriage⟩, feed⟩ := ordinary
  have within : isLineEnd (.char c) = false := by simp [isLineEnd, feed, carriage]
  cases mode with
  | quoted => exact absurd rfl outside
  | _ => simp [recordsFrom, comma, quote, within, Place.past, symbolsOf]

theorem recordsFrom_open (first : mode = .record ∨ mode = .field) :
    recordsFrom here place mode fields [] (.char '"' :: rest) =
      recordsFrom (here.past ['"']) place .quoted fields [] rest := by
  rcases first with rfl | rfl <;> rfl

/-! ### Fields -/

theorem recordsFrom_plain (ordinary : needsQuotes cs = false) (outside : mode ≠ .quoted) :
    recordsFrom here place mode fields field (symbolsOf cs ++ rest) =
      recordsFrom (here.past cs) place (if cs = [] then mode else .plain) fields
        (symbolsOf cs.reverse ++ field) rest := by
  induction cs generalizing here mode field with
  | nil => rfl
  | cons c cs ih =>
    rw [needsQuotes, List.any_cons, Bool.or_eq_false_iff] at ordinary
    have first : needsQuotes [c] = false := by rw [needsQuotes, List.any_cons, ordinary.1]; rfl
    rw [symbolsOf_cons, List.cons_append, recordsFrom_ordinary first outside,
      @ih _ .plain _ ordinary.2 (by decide)]
    simp [Place.past]

/-- Between quotes a doubled quote is a quote, and all else is what it is. -/
theorem recordsFrom_doubleQuotes (cs : List Char) :
    recordsFrom here place .quoted fields field (symbolsOf (doubleQuotes cs) ++ rest) =
      recordsFrom (here.past (doubleQuotes cs)) place .quoted fields (symbolsOf cs.reverse ++ field) rest := by
  induction cs generalizing here field with
  | nil => rfl
  | cons c cs ih =>
    have split : doubleQuotes (c :: cs) = (if c = '"' then ['"', '"'] else [c]) ++ doubleQuotes cs := rfl
    have grown : symbolsOf (c :: cs).reverse ++ field = symbolsOf cs.reverse ++ .char c :: field := by simp
    rw [split, symbolsOf_append, List.append_assoc, Place.past_append, grown, ← ih]
    by_cases quote : c = '"'
    · rw [if_pos quote, quote]
      rfl
    · rw [if_neg quote]
      simp [recordsFrom, quote, Place.past]

/-- Where a field that was begun in `mode` leaves the reader. -/
def Mode.behind (mode : Mode) (cs : List Char) : Mode :=
  if needsQuotes cs then .closed else if cs = [] then mode else .plain

theorem recordsFrom_fieldChars (first : mode = .record ∨ mode = .field) :
    recordsFrom here place mode fields [] (symbolsOf (fieldChars cs) ++ rest) =
      recordsFrom (here.past (fieldChars cs)) place (mode.behind cs) fields (symbolsOf cs.reverse) rest := by
  unfold fieldChars Mode.behind
  split
  · rw [symbolsOf_append, symbolsOf_cons, List.append_assoc, List.cons_append, recordsFrom_open first,
      recordsFrom_doubleQuotes, List.append_nil, Place.past_append]
    rfl
  · rename_i ordinary
    have outside : mode ≠ .quoted := by rcases first with rfl | rfl <;> nofun
    rw [recordsFrom_plain (Bool.not_eq_true _ ▸ ordinary) outside, List.append_nil]

theorem behind_ne_quoted (first : mode = .record ∨ mode = .field) (cs : List Char) :
    mode.behind cs ≠ .quoted := by
  unfold Mode.behind
  rcases first with rfl | rfl <;> repeat' split
  all_goals decide

theorem behind_ne_record (filled : mode = .field ∨ fieldChars cs ≠ []) : mode.behind cs ≠ .record := by
  unfold Mode.behind
  split
  · decide
  · rename_i ordinary
    split
    · rename_i empty
      rcases filled with rfl | filled
      · decide
      · exact absurd (by rw [fieldChars, if_neg ordinary, empty]) filled
    · decide

/-! ### Lines -/

/-- Fields that do not leave their line empty are read back, whatever fields were read before. -/
theorem recordsFrom_fieldsChars {first : List Char} {others : List (List Char)}
    (start : mode = .record ∨ mode = .field) (filled : mode = .field ∨ fieldsChars (first :: others) ≠ []) :
    recordsFrom here place mode fields [] (symbolsOf (fieldsChars (first :: others) ++ ['\n']) ++ rest) =
      ⟨place, fields.reverse ++ (first :: others).map symbolsOf⟩ ::
        recordsFrom (here.past (fieldsChars (first :: others) ++ ['\n']))
          (here.past (fieldsChars (first :: others) ++ ['\n'])) .record [] [] rest := by
  have whole (cs : List Char) : (symbolsOf cs.reverse).reverse = symbolsOf cs := by
    simp [symbolsOf]
  induction others generalizing here mode fields first with
  | nil =>
    rw [fieldsChars, symbolsOf_append, List.append_assoc, recordsFrom_fieldChars start, Place.past_append]
    show recordsFrom _ place _ fields _ (.char '\n' :: rest) = _
    rw [recordsFrom_lineFeed (behind_ne_quoted start first) (behind_ne_record filled), whole]
    simp
  | cons second others ih =>
    have line : fieldsChars (first :: second :: others) ++ ['\n'] =
        fieldChars first ++ ([','] ++ (fieldsChars (second :: others) ++ ['\n'])) := by
      simp [fieldsChars]
    rw [line, symbolsOf_append, List.append_assoc, recordsFrom_fieldChars start, symbolsOf_append]
    show recordsFrom _ place _ fields _ (.char ',' :: (symbolsOf _ ++ rest)) = _
    rw [recordsFrom_comma (behind_ne_quoted start first), ih (.inr rfl) (.inl rfl), whole]
    simp only [Place.past_append]
    simp

theorem eq_nil_of_fieldsChars {first : List Char} {others : List (List Char)}
    (empty : fieldsChars (first :: others) = []) : first = [] ∧ others = [] := by
  cases others with
  | nil =>
    rw [fieldsChars, fieldChars] at empty
    split at empty
    · cases empty
    · exact ⟨empty, rfl⟩
  | cons second others => simp [fieldsChars] at empty

/-- A written record is read back, and reading goes on behind it. -/
theorem recordsFrom_lineChars {record : List (List Char)} (nonempty : record ≠ []) :
    recordsFrom here place .record [] [] (symbolsOf (lineChars record) ++ rest) =
      ⟨place, record.map symbolsOf⟩ ::
        recordsFrom (here.past (lineChars record)) (here.past (lineChars record)) .record [] [] rest := by
  obtain ⟨first, others, rfl⟩ := List.exists_cons_of_ne_nil nonempty
  by_cases empty : fieldsChars (first :: others) = []
  · obtain ⟨rfl, rfl⟩ := eq_nil_of_fieldsChars empty
    rfl
  · have line : lineChars (first :: others) = fieldsChars (first :: others) ++ ['\n'] := by
      simp [lineChars, empty]
    rw [line]
    exact recordsFrom_fieldsChars (.inl rfl) (.inr empty)

/-! ### Whole texts -/

theorem fields_recordsFrom_writeLines {expected : Nat} (positive : 0 < expected)
    {records : List (List (List Char))} (even : ∀ record ∈ records, record.length = expected) :
    (recordsFrom here here .record [] [] (symbolsOf (writeLines expected records).chars)).map Record.fields =
      records.map (·.map symbolsOf) := by
  induction records generalizing here with
  | nil => rfl
  | cons record records ih =>
    obtain ⟨fits, even⟩ := List.forall_mem_cons.mp even
    have nonempty : record ≠ [] := by
      rintro rfl
      exact absurd fits (Nat.ne_of_lt positive)
    simp only [writeLines, fits, if_true, symbolsOf_append, recordsFrom_lineChars nonempty, List.map_cons, ih even]

theorem fieldsChars_cons (first : List Char) (others : List (List Char)) :
    fieldsChars (first :: others) =
      fieldChars first ++ if others = [] then [] else ',' :: fieldsChars others := by
  cases others <;> simp [fieldsChars]

/-- A line starts as its first field does, or with a quote or a comma. -/
theorem head?_lineChars (first : List Char) (others : List (List Char)) :
    ∃ c, (lineChars (first :: others)).head? = some c ∧ (c = '"' ∨ c = ',' ∨ first.head? = some c) := by
  cases quoted : needsQuotes first with
  | true => simp [lineChars, fieldsChars_cons, fieldChars, quoted]
  | false =>
    cases first with
    | cons c cs => simp [lineChars, fieldsChars_cons, fieldChars, quoted]
    | nil => cases others <;> simp [lineChars, fieldsChars_cons, fieldChars, quoted]

theorem records_of_unmarked {input : List Symbol} (unmarked : input.head? ≠ some byteOrderMark) :
    records input = recordsFrom .start .start .record [] [] input := by
  cases input with
  | nil => rfl
  | cons s rest =>
    have other : s ≠ byteOrderMark := by simpa using unmarked
    rw [records, if_neg other]

/-- Records of one length are read back as they were written, unless the first field of all starts
with a byte order mark. -/
theorem fields_records_write {first : String} {others : List String} {body : List (List String)}
    (even : ∀ record ∈ body, record.length = (first :: others).length)
    (unmarked : first.toList.head? ≠ some '\ufeff') :
    (records (symbolsOf (write ((first :: others) :: body)).chars)).map Record.fields =
      ((first :: others) :: body).map fun record => record.map fun text => symbolsOf text.toList := by
  have even : ∀ record ∈ ((first :: others) :: body).map fun record => record.map String.toList,
      record.length = (first :: others).length := by
    simpa using even
  have start : (symbolsOf (write ((first :: others) :: body)).chars).head? ≠ some byteOrderMark := by
    obtain ⟨c, head, shown⟩ := head?_lineChars first.toList (others.map String.toList)
    have head : (symbolsOf (write ((first :: others) :: body)).chars).head? = some (.char c) := by
      simp [write, writeLines, symbolsOf, head]
    rw [head]
    rintro ⟨⟩
    rcases shown with quote | comma | start
    · cases quote
    · cases comma
    · exact unmarked start
  rw [records_of_unmarked start, write,
    fields_recordsFrom_writeLines (List.length_pos_iff.mpr (List.cons_ne_nil _ _)) even]
  simp [symbolsOf]

/-! ### Fields as text -/

theorem assemble_symbolsOf (cs : List Char) : Text.assemble (symbolsOf cs) = .ok cs := by
  have chars : ∀ s ∈ symbolsOf cs, s.char?.isSome = true := List.forall_mem_map.mpr fun _ _ => rfl
  have valid : (symbolsOf cs).takeWhile (fun s => s.char?.isSome) = symbolsOf cs := by
    have whole := @List.takeWhile_append_of_pos _ (fun s : Symbol => s.char?.isSome) _ [] chars
    rwa [List.append_nil, List.takeWhile_nil, List.append_nil] at whole
  have back : (symbolsOf cs).filterMap Symbol.char? = cs := by
    rw [symbolsOf, List.filterMap_map]
    exact List.filterMap_some
  simp only [Text.assemble, List.all_eq_true.mpr chars, if_true, valid, back]

theorem texts_of_fields {record : Record} {texts : List String}
    (fields : record.fields = texts.map fun text => symbolsOf text.toList) (number : Nat) :
    record.texts number = .ok texts := by
  refine mapM_zipIdx_eq_ok id (fun text => symbolsOf text.toList) (by rwa [List.map_id]) ?_ 0
  rintro _ text _ rfl index
  simp only [assemble_symbolsOf, String.ofList_toList]

end Csv

end Tableflow
