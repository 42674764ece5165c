import Tableflow.Stage.Apply

/-!
What stages make. A stage that ends well has found the columns and tables that it names, and each
lemma here says which table it has then made of them.
-/

namespace Tableflow

section

variable {ε δ α β : Type}

theorem bind_eq_ok {first : Except ε α} {next : α → Except ε β} {result : β} :
    (first >>= next) = .ok result ↔ ∃ value, first = .ok value ∧ next value = .ok result := by
  cases first <;> simp [bind, Except.bind]

theorem guarded_eq_ok {guard : Except ε Unit} {rest : Except ε α} {result : α} :
    (guard >>= fun _ => rest) = .ok result ↔ guard = .ok () ∧ rest = .ok result := by
  cases guard <;> simp [bind, Except.bind]

theorem pure_eq_ok {value result : α} : (pure value : Except ε α) = .ok result ↔ value = result := by
  simp [pure, Except.pure]

theorem map_eq_ok {first : Except ε α} {f : α → β} {result : β} :
    first.map f = .ok result ↔ ∃ value, first = .ok value ∧ f value = result := by
  cases first with
  | error e => exact ⟨nofun, nofun⟩
  | ok value =>
    constructor
    · rintro ⟨⟩
      exact ⟨value, rfl, rfl⟩
    · rintro ⟨_, ⟨⟩, rfl⟩
      rfl

theorem mapError_eq_ok {first : Except ε α} {f : ε → δ} {result : α} :
    first.mapError f = .ok result ↔ first = .ok result := by
  cases first with
  | error e => exact ⟨nofun, nofun⟩
  | ok value => constructor <;> (rintro ⟨⟩; rfl)

theorem mapError_eq_error {first : Except ε α} {f : ε → δ} {e : δ} :
    first.mapError f = .error e ↔ ∃ cause, first = .error cause ∧ f cause = e := by
  cases first with
  | ok value => exact ⟨nofun, nofun⟩
  | error cause =>
    constructor
    · rintro ⟨⟩
      exact ⟨cause, rfl, rfl⟩
    · rintro ⟨_, ⟨⟩, rfl⟩
      rfl

theorem bind_pure_eq_error {first : Except ε α} {f : α → β} {e : ε} :
    (first >>= fun value => pure (f value)) = .error e ↔ first = .error e := by
  cases first with
  | ok value => exact ⟨nofun, nofun⟩
  | error cause => constructor <;> (rintro ⟨⟩; rfl)

theorem snd_of_mapM_paired {f : α → Except ε β} {items : List α} {paired : List (β × α)}
    (made : (items.mapM fun item => do return (← f item, item)) = .ok paired) :
    paired.map Prod.snd = items := by
  induction items generalizing paired with
  | nil =>
    obtain rfl := pure_eq_ok.mp made
    rfl
  | cons item rest ih =>
    rw [List.mapM_cons, bind_eq_ok] at made
    obtain ⟨pair, first, made⟩ := made
    obtain ⟨value, _, first⟩ := bind_eq_ok.mp first
    obtain ⟨pairs, later, made⟩ := bind_eq_ok.mp made
    obtain rfl := pure_eq_ok.mp first
    obtain rfl := pure_eq_ok.mp made
    rw [List.map_cons, ih later]

/-- A list is worked off if every item is. -/
theorem mapM_eq_ok {f : α → Except ε β} {items : List α} {results : List β} :
    items.mapM f = .ok results ↔ items.map f = results.map .ok := by
  induction items generalizing results with
  | nil => cases results <;> simp [pure_eq_ok]
  | cons item rest ih =>
    simp only [List.mapM_cons, bind_eq_ok, pure_eq_ok, ih, List.map_cons]
    constructor
    · rintro ⟨value, first, values, later, rfl⟩
      rw [first, later, List.map_cons]
    · intro same
      obtain ⟨value, values, rfl, first, later⟩ := List.map_eq_cons_iff.mp same.symm
      exact ⟨value, first.symm, values, later.symm, rfl⟩

/-- A list that cannot be worked off fails with the first item that fails. -/
theorem mapM_eq_error {f : α → Except ε β} {items : List α} {e : ε} :
    items.mapM f = .error e ↔ ∃ before item after, items = before ++ item :: after ∧
      (∀ earlier ∈ before, ∃ result, f earlier = .ok result) ∧ f item = .error e := by
  induction items with
  | nil =>
    refine ⟨nofun, ?_⟩
    rintro ⟨before, item, after, split, _⟩
    cases before <;> cases split
  | cons item rest ih =>
    rw [List.mapM_cons]
    cases first : f item with
    | error cause =>
      constructor
      · rintro ⟨⟩
        exact ⟨[], item, rest, rfl, List.forall_mem_nil _, first⟩
      · rintro ⟨before, failing, after, split, earlier, failed⟩
        cases before with
        | nil =>
          obtain ⟨rfl, rfl⟩ := List.cons.inj split
          exact congrArg _ (Except.error.inj (first.symm.trans failed))
        | cons head _ =>
          obtain ⟨rfl, rfl⟩ := List.cons.inj split
          obtain ⟨result, worked⟩ := earlier item List.mem_cons_self
          cases first.symm.trans worked
    | ok result =>
      show (rest.mapM f >>= fun results => pure (result :: results)) = _ ↔ _
      rw [bind_pure_eq_error, ih]
      constructor
      · rintro ⟨before, failing, after, rfl, earlier, failed⟩
        exact ⟨item :: before, failing, after, rfl, List.forall_mem_cons.mpr ⟨⟨result, first⟩, earlier⟩,
          failed⟩
      · rintro ⟨before, failing, after, split, earlier, failed⟩
        cases before with
        | nil =>
          obtain ⟨rfl, rfl⟩ := List.cons.inj split
          cases first.symm.trans failed
        | cons head before =>
          obtain ⟨rfl, rfl⟩ := List.cons.inj split
          exact ⟨before, failing, after, rfl, (List.forall_mem_cons.mp earlier).2, failed⟩

theorem exists_mapM {f : α → Except ε β} {items : List α}
    (each : ∀ item ∈ items, ∃ result, f item = .ok result) : ∃ results, items.mapM f = .ok results := by
  induction items with
  | nil => exact ⟨[], rfl⟩
  | cons item rest ih =>
    rw [List.forall_mem_cons] at each
    obtain ⟨⟨result, first⟩, each⟩ := each
    obtain ⟨results, later⟩ := ih each
    refine ⟨result :: results, ?_⟩
    rw [List.mapM_cons, first]
    exact bind_eq_ok.mpr ⟨result, rfl, bind_eq_ok.mpr ⟨results, later, rfl⟩⟩

theorem length_of_mapM {f : α → Except ε β} {items : List α} {results : List β}
    (made : items.mapM f = .ok results) : results.length = items.length := by
  simpa using (congrArg List.length (mapM_eq_ok.mp made)).symm

theorem exists_of_mem_mapM {f : α → Except ε β} {items : List α} {results : List β}
    (made : items.mapM f = .ok results) {result : β} (member : result ∈ results) :
    ∃ item ∈ items, f item = .ok result := by
  have found : .ok result ∈ items.map f := by
    rw [mapM_eq_ok.mp made]
    exact List.mem_map_of_mem member
  exact List.mem_map.mp found

end

namespace Table

variable {t made : Table} {names : List String} {c : Context}

theorem require_eq_ok : t.require names = .ok () ↔ names ⊆ t.columns := by
  unfold require
  cases absent : names.find? fun name => !t.hasColumn name with
  | some name =>
    obtain ⟨unknown, _⟩ := List.find?_eq_some_iff_append.mp absent
    have member := List.mem_of_find?_eq_some absent
    simp only [reduceCtorEq, false_iff]
    intro present
    simp [hasColumn, present member] at unknown
  | none =>
    have present := List.find?_eq_none.mp absent
    simp only [true_iff]
    intro name member
    simpa [hasColumn] using present name member

theorem requireFor_eq_ok : t.requireFor names = .ok () ↔ names ⊆ t.columns := by
  rw [requireFor, mapError_eq_ok, require_eq_ok]

theorem column_eq_ok {name : String} {cells : List Cell} : t.column name = .ok cells ↔
    name ∈ t.columns ∧ (t.rows.filterMap fun row => row.get? name) = cells := by
  by_cases present : name ∈ t.columns <;> simp [column, hasColumn, present]

theorem groupBy_eq_ok : t.groupBy names = .ok made ↔
    names ⊆ t.columns ∧ ofParts t.columns t.rows (some names) = made := by
  simp only [groupBy, guarded_eq_ok, require_eq_ok, pure_eq_ok]

theorem dropColumns_eq_ok : t.dropColumns names = .ok made ↔
    names ⊆ t.columns ∧
      ofParts (t.columns.filter fun column => !names.contains column)
        (t.rows.map fun row => names.foldl OrderedMap.erase row)
        (survivingGroup t.groupColumns (t.columns.filter fun column => !names.contains column)) =
        made := by
  simp only [dropColumns, guarded_eq_ok, requireFor_eq_ok, pure_eq_ok]

/-- Moving a cell out of a row leaves the cells under other columns, wherever they move. -/
theorem moveCells_eq {columns : List String} (unique : columns.Nodup) (row : Row) :
    moveCells columns row = columns.map fun column => (column, row.cell column) := by
  induction columns generalizing row with
  | nil => rfl
  | cons column rest ih =>
    obtain ⟨fresh, unique⟩ := List.nodup_cons.mp unique
    rw [moveCells, ih unique, List.map_cons]
    congr 1
    refine List.map_congr_left fun other member => ?_
    have apart : other ≠ column := fun same => fresh (same ▸ member)
    rw [Row.cell, OrderedMap.get?_swapErase_of_ne row apart]
    rfl

theorem select_eq_ok : t.select names = .ok made ↔
    names ⊆ t.columns ∧
      ofParts (Names.distinct names) (t.rows.map (arrange (Names.distinct names)))
        (survivingGroup t.groupColumns (Names.distinct names)) = made := by
  have rows : t.rows.map (fun row => OrderedMap.ofList (moveCells (Names.distinct names) row)) =
      t.rows.map (arrange (Names.distinct names)) :=
    List.map_congr_left fun row _ => congrArg _ (moveCells_eq (Names.nodup_distinct names) row)
  simp only [select, guarded_eq_ok, requireFor_eq_ok, pure_eq_ok, rows]

theorem filter_eq_ok {e : Expr} : t.filter e = .ok made ↔
    ∃ cells, t.evaluate e = .ok cells ∧
      ofParts t.columns (((t.rows.zip cells).filter fun (_, cell) => cell.isTruthy).map Prod.fst)
        t.groupColumns = made := by
  simp only [filter, bind_eq_ok, pure_eq_ok]

theorem rows_of_filter {e : Expr} (ended : t.filter e = .ok made) :
    ∃ rows, rows ⊆ t.rows ∧ made = ofParts t.columns rows t.groupColumns := by
  obtain ⟨cells, _, rfl⟩ := filter_eq_ok.mp ended
  refine ⟨_, fun row member => ?_, rfl⟩
  obtain ⟨⟨_, cell⟩, kept, rfl⟩ := List.mem_map.mp member
  exact (List.of_mem_zip (List.mem_filter.mp kept).1).1

theorem mutate_eq_ok {column : String} {e : Expr} : t.mutate column e = .ok made ↔
    ∃ cells, t.evaluate e = .ok cells ∧
      ofParts (if t.hasColumn column then t.columns else t.columns ++ [column])
        (List.zipWith (fun (row : Row) cell => row.insert column cell) t.rows cells)
        t.groupColumns = made := by
  simp only [mutate, bind_eq_ok, pure_eq_ok]

theorem unique_eq_ok : t.unique names = .ok made ↔
    names ⊆ t.columns ∧ ofParts t.columns (firstRows names [] t.rows) t.groupColumns = made := by
  simp only [unique, guarded_eq_ok, requireFor_eq_ok, pure_eq_ok]

/-- Sorting leaves the rows in another order. -/
theorem perm_of_sort {descending : Bool} (ended : t.sort names descending = .ok made) :
    names ⊆ t.columns ∧ ∃ rows, rows.Perm t.rows ∧
      made = ofParts t.columns rows t.groupColumns := by
  simp only [sort, guarded_eq_ok, requireFor_eq_ok] at ended
  obtain ⟨present, _, ended⟩ := ended
  obtain ⟨keyed, paired, ended⟩ := bind_eq_ok.mp ended
  obtain rfl := pure_eq_ok.mp ended
  refine ⟨present, _, ?_, rfl⟩
  rw [← snd_of_mapM_paired paired]
  exact (stableSort_perm _ keyed).map Prod.snd

/-- Every row of a summary holds the key of a group and what the cells of the group are reduced
to. -/
theorem rows_of_summarize {s : Summary} {column : String}
    (ended : t.summarize s column = .ok made) :
    column ∈ t.columns ∧ ∃ rows,
      made = ofParts (if (t.groupColumns.getD []).contains column then t.groupColumns.getD []
        else t.groupColumns.getD [] ++ [column]) rows none ∧
      ∀ row ∈ rows, ∃ member ∈ t.members, ∃ picked result,
        picked.length = member.2.length ∧
        (∀ cell ∈ picked, ∃ row ∈ t.rows, row.get? column = some cell) ∧
        s.reduce picked = .ok result ∧
        row = (OrderedMap.ofList ((t.groupColumns.getD []).zip member.1)).insert column result := by
  simp only [summarize, bind_eq_ok, pure_eq_ok, mapError_eq_ok, column_eq_ok] at ended
  obtain ⟨cells, ⟨present, rfl⟩, rows, reduced, rfl⟩ := ended
  refine ⟨present, rows, rfl, ?_⟩
  intro row member
  obtain ⟨group, known, made⟩ := exists_of_mem_mapM reduced member
  simp only [bind_eq_ok, pure_eq_ok, mapError_eq_ok] at made
  obtain ⟨picked, found, result, reduced, rfl⟩ := made
  refine ⟨group, known, picked, result, length_of_mapM found, ?_, reduced, rfl⟩
  intro cell here
  obtain ⟨number, _, read⟩ := exists_of_mem_mapM found here
  split at read
  · rename_i there
    obtain rfl := Except.ok.inj read
    exact List.mem_filterMap.mp (List.mem_of_getElem? there)
  · cases read

theorem load_eq_ok {name : String} : load c name = .ok made ↔ c.lookup? name = some made := by
  unfold load
  cases c.lookup? name <;> simp

/-! ### The index of a join -/

namespace JoinIndex

theorem key_eq_missing_iff {cell : Cell} : cell.key = .missing ↔ cell = none := by
  cases cell with
  | none => simp [Cell.key]
  | some v => cases v <;> simp [Cell.key]

theorem lookup_cons_eq_ite (first other : Key) (rows : List Row) (rest : JoinIndex) :
    List.lookup other ((first, rows) :: rest) =
      if other = first then some rows else List.lookup other rest := by
  rw [List.lookup_cons]
  by_cases same : other = first
  · rw [if_pos same, beq_iff_eq.mpr same]
  · rw [if_neg same, beq_eq_false_iff_ne.mpr same]

theorem lookup_push (key other : Key) (row : Row) (index : JoinIndex) :
    (push key row index).lookup other =
      if other = key then some ((index.lookup other).getD [] ++ [row]) else index.lookup other := by
  induction index with
  | nil => exact lookup_cons_eq_ite key other [row] []
  | cons entry rest ih =>
    obtain ⟨first, rows⟩ := entry
    by_cases here : first = key
    · subst here
      rw [push, if_pos rfl, lookup_cons_eq_ite, lookup_cons_eq_ite]
      by_cases same : other = first <;> simp [same]
    · rw [push, if_neg here, lookup_cons_eq_ite, lookup_cons_eq_ite, ih]
      by_cases same : other = first
      · simp [same, here]
      · simp [same]

/-- One row more. -/
theorem lookup_add (index : JoinIndex) (entry : Cell × Row) {key : Key} (present : key ≠ .missing) :
    ((index.add entry).lookup key).getD [] =
      (index.lookup key).getD [] ++ if entry.1.key = key then [entry.2] else [] := by
  unfold add
  split
  · rename_i missing
    rw [if_neg (missing ▸ present.symm), List.append_nil]
  · rw [lookup_push]
    by_cases same : entry.1.key = key
    · rw [if_pos same.symm, if_pos same]
      rfl
    · rw [if_neg (Ne.symm same), if_neg same, List.append_nil]

/-- The rows under a key are those that have it, in their order. -/
theorem lookup_foldl_add (index : JoinIndex) (keyed : List (Cell × Row)) {key : Key}
    (present : key ≠ .missing) :
    ((keyed.foldl add index).lookup key).getD [] =
      (index.lookup key).getD [] ++ (keyed.filter fun entry => entry.1.key = key).map Prod.snd := by
  induction keyed generalizing index with
  | nil => exact (List.append_nil _).symm
  | cons entry rest ih =>
    rw [List.foldl_cons, ih, lookup_add index entry present, List.append_assoc]
    by_cases same : entry.1.key = key
    · rw [if_pos same, List.filter_cons_of_pos (by simpa using same)]
      rfl
    · rw [if_neg same, List.filter_cons_of_neg (by simpa using same)]
      rfl

theorem lookup_missing (index : JoinIndex) (keyed : List (Cell × Row))
    (absent : index.lookup .missing = none) : (keyed.foldl add index).lookup .missing = none := by
  induction keyed generalizing index with
  | nil => exact absent
  | cons entry rest ih =>
    refine ih _ ?_
    unfold add
    split
    · exact absent
    · rename_i present
      rw [lookup_push, if_neg (Ne.symm present), absent]

/-- What a left row finds in the index of the right rows. -/
theorem lookup_build (keyed : List (Cell × Row)) (key : Cell) :
    ((build keyed).lookup key.key).getD [] =
      if key.isNone then [] else (keyed.filter fun entry => entry.1.key = key.key).map Prod.snd := by
  by_cases missing : key.key = .missing
  · obtain rfl := key_eq_missing_iff.mp missing
    rw [missing, build, lookup_missing [] keyed rfl]
    rfl
  · have present : key.isNone = false := by
      cases key with
      | none => exact absurd rfl missing
      | some v => rfl
    rw [build, lookup_foldl_add [] keyed missing, present]
    rfl

end JoinIndex

/-- Looking up the index of the right rows is as good as searching them all for every left row. -/
theorem joinRows_build (leftName rightName : String) (left right : List (Cell × Row)) :
    joinRows leftName rightName left (JoinIndex.build right) = left.flatMap fun first =>
      (if first.1.isNone then [] else right.filter fun second => second.1.key = first.1.key).map
        fun second => joinRow leftName rightName first.1 first.2 second.2 := by
  unfold joinRows
  congr 1
  funext ⟨key, row⟩
  have found := congrArg (List.map (joinRow leftName rightName key row))
    (JoinIndex.lookup_build right key)
  refine Eq.trans ?_ (found.trans ?_)
  · cases searched : (JoinIndex.build right).lookup key.key <;> simp only [searched] <;> rfl
  · split
    · rfl
    · rw [List.map_map]
      rfl

theorem tables_of_join {leftName leftColumn rightName rightColumn : String}
    (ended : join c leftName leftColumn rightName rightColumn = .ok made) :
    leftName ≠ rightName ∧ ∃ left right, c.lookup? leftName = some left ∧
      c.lookup? rightName = some right ∧ leftColumn ∈ left.columns ∧ rightColumn ∈ right.columns ∧
      (joinColumns leftName rightName left right).Nodup ∧
      ∃ keyedLeft keyedRight, left.keyedRows leftColumn = .ok keyedLeft ∧
        right.keyedRows rightColumn = .ok keyedRight ∧
        made = ofParts (joinColumns leftName rightName left right)
          (joinRows leftName rightName keyedLeft (JoinIndex.build keyedRight)) none := by
  unfold join at ended
  split at ended
  · cases ended
  · rename_i apart
    obtain ⟨left, found, ended⟩ := bind_eq_ok.mp ended
    obtain ⟨right, found', ended⟩ := bind_eq_ok.mp ended
    obtain ⟨present, ended⟩ := guarded_eq_ok.mp ended
    obtain ⟨present', ended⟩ := guarded_eq_ok.mp ended
    obtain ⟨keyedRight, keyed', ended⟩ := bind_eq_ok.mp ended
    dsimp only at ended
    split at ended
    · cases ended
    · rename_i distinct
      obtain ⟨keyedLeft, keyed, ended⟩ := bind_eq_ok.mp ended
      obtain rfl := pure_eq_ok.mp ended
      exact ⟨apart, left, right, load_eq_ok.mp found, load_eq_ok.mp found',
        requireFor_eq_ok.mp present (by simp), requireFor_eq_ok.mp present' (by simp),
        Names.firstRepeat?_eq_none_iff.mp distinct, keyedLeft, keyedRight, keyed, keyed', rfl⟩

end Table

end Tableflow
