import Mathlib.Data.List.ProdSigma
import Tableflow.Proofs.Comparison

/-!
A join is the nested loop over the rows of both tables. Rows meet by the keys of their cells, and two
present cells have one key exactly if the operator `equal` holds of them; prefixed names that are
distinct keep every cell of both rows.
-/

namespace Tableflow

/-! ### Names -/

namespace Names

theorem repeatAfter?_eq_some {seen names : List String} {name : String}
    (found : repeatAfter? seen names = some name) :
    ∃ before after, names = before ++ name :: after ∧ before.Nodup ∧
      (∀ other ∈ before, other ∉ seen) ∧ (name ∈ seen ∨ name ∈ before) := by
  induction names generalizing seen with
  | nil => cases found
  | cons head rest ih =>
    rw [repeatAfter?] at found
    split at found
    · rename_i known
      obtain rfl := Option.some.inj found
      exact ⟨[], rest, rfl, List.nodup_nil, List.forall_mem_nil _, .inl known⟩
    · rename_i fresh
      obtain ⟨before, after, rfl, unique, apart, again⟩ := ih found
      refine ⟨head :: before, after, rfl, ?_, ?_, ?_⟩
      · exact List.nodup_cons.mpr ⟨fun here => apart head here List.mem_cons_self, unique⟩
      · exact List.forall_mem_cons.mpr
          ⟨fresh, fun other here there => apart other here (List.mem_cons_of_mem _ there)⟩
      · rcases again with known | earlier
        · rcases List.mem_cons.mp known with rfl | known
          · exact .inr List.mem_cons_self
          · exact .inl known
        · exact .inr (List.mem_cons_of_mem _ earlier)

/-- The name that is found comes for the second time, and no name before it does. -/
theorem exists_firstRepeat? {names : List String} (repeated : ¬ names.Nodup) :
    ∃ before name after, names = before ++ name :: after ∧ before.Nodup ∧ name ∈ before ∧
      firstRepeat? names = some name := by
  cases found : firstRepeat? names with
  | none => exact absurd (firstRepeat?_eq_none_iff.mp found) repeated
  | some name =>
    obtain ⟨before, after, split, unique, _, again⟩ := repeatAfter?_eq_some found
    exact ⟨before, name, after, split, unique, again.resolve_left List.not_mem_nil, rfl⟩

end Names

theorem OrderedMap.entries_ofList {α : Type} {entries : List (String × α)}
    (distinct : (entries.map Prod.fst).Nodup) : (ofList entries).entries = entries :=
  congrArg OrderedMap.entries (ofList_entries ⟨entries, distinct⟩)

/-! ### Cells that meet -/

/-- Without their signs, equal zeros are the same number. -/
theorem Number.unsigned_eq_iff {x y : Float} (first : HasOrder x) (second : HasOrder y) :
    unsigned x = unsigned y ↔ (x == y) = true := by
  have equal : (x == y) = true ↔ x = y ∨ x = 0 ∧ y = -0 ∨ x = -0 ∧ y = 0 := by
    rw [Float.beq_iff_ne_nan_and_eq]
    exact ⟨fun same => same.2.2, fun same => ⟨first, second, same⟩⟩
  rw [equal, unsigned, unsigned]
  simp only [beq_zero_iff]
  by_cases zero : x = 0 ∨ x = -0
  · by_cases zero' : y = 0 ∨ y = -0
    · simp only [zero, zero', if_true, true_iff]
      rcases zero with rfl | rfl <;> rcases zero' with rfl | rfl <;> simp
    · simp only [zero, zero', if_true, if_false]
      grind
  · simp only [zero, if_false]
    grind

theorem Value.kind_eq_of_equal {v w : Value} (same : v.equal w = true) : v.kind = w.kind := by
  cases v <;> cases w <;> simp_all [Value.equal, Value.kind]

namespace Cell

variable {a b : Cell} {v w : Value}

/-- The operator `equal` holds of the cells; it gives missing where one is missing. -/
def Meets (a b : Cell) : Prop := Comparison.equal.apply a b = .ok (some (.logical true))

theorem meets_some_iff : Meets (some v) (some w) ↔ v.equal w = true := by
  show (EvalError.demand (if v.kind = w.kind then _ else _) >>= fun _ => _) = _ ↔ _
  by_cases alike : v.kind = w.kind
  · rw [if_pos alike]
    show Except.ok (some (Value.logical (v.equal w))) = _ ↔ _
    simp
  · rw [if_neg alike]
    exact ⟨nofun, fun same => absurd (Value.kind_eq_of_equal same) alike⟩

theorem not_meets_none_left : ¬ Meets none b := nofun

theorem not_meets_none_right : ¬ Meets a none := by
  cases a <;> exact nofun

instance : (a b : Cell) → Decidable (a.Meets b)
  | none, _ => .isFalse not_meets_none_left
  | _, none => .isFalse not_meets_none_right
  | some _, some _ => decidable_of_iff _ meets_some_iff.symm

theorem key_some_eq_iff (first : Numbers Number.HasOrder (some v))
    (second : Numbers Number.HasOrder (some w)) :
    key (some v) = key (some w) ↔ v.equal w = true := by
  cases v with
  | logical a => cases w <;> simp [key, Value.equal]
  | number x =>
    cases w with
    | number y =>
      rw [Value.equal, ← Number.unsigned_eq_iff first second, ← Float.toBits_inj]
      exact Key.number.injEq _ _ ▸ Iff.rfl
    | _ => simp [key, Value.equal]
  | text a => cases w <;> simp [key, Value.equal]
  | datetime a => cases w <;> simp [key, Value.equal]

/-- Cells that are compared by their keys meet as the operator says. -/
theorem meets_iff_key (first : a.Numbers Number.HasOrder) (second : b.Numbers Number.HasOrder) :
    a.Meets b ↔ a ≠ none ∧ b.key = a.key := by
  cases a with
  | none => simp [not_meets_none_left]
  | some v =>
    cases b with
    | none =>
      have apart : key none ≠ key (some v) := by cases v <;> simp [key]
      simp [not_meets_none_right, apart]
    | some w =>
      rw [meets_some_iff, ← key_some_eq_iff first second]
      simp [eq_comm]

end Cell

/-! ### Rows -/

namespace Table

variable {c : Context} {left right : Table} {leftName leftColumn rightName rightColumn : String}

/-- The pairs of a left row and a right row whose cells under the two columns are present and
equal, the left rows in the outer loop. -/
def meetings (left right : Table) (leftColumn rightColumn : String) : List (Row × Row) :=
  (left.rows ×ˢ right.rows).filter fun (first, second) =>
    (first.cell leftColumn).Meets (second.cell rightColumn)

theorem keyedRows_eq {t : Table} (complete : t.Complete) {column : String} (present : column ∈ t.columns) :
    t.keyedRows column = .ok (t.rows.map fun row => (row.cell column, row)) := by
  rw [keyedRows, mapM_eq_ok, List.map_map]
  refine List.map_congr_left fun row member => ?_
  rw [presentCell_eq (complete row member column present)]
  rfl

/-- The partners that a left row finds by its key are the right rows that it meets. -/
theorem partners_eq {key : Cell} (ordered : key.Numbers Number.HasOrder)
    (ordered' : ∀ row ∈ right.rows, row.Numbers Number.HasOrder) :
    (if key.isNone then [] else
      (right.rows.map fun row => (row.cell rightColumn, row)).filter fun entry =>
        entry.1.key = key.key) =
    (right.rows.filter fun row => key.Meets (row.cell rightColumn)).map
      fun row => (row.cell rightColumn, row) := by
  rw [List.filter_map]
  split
  · rename_i missing
    obtain rfl := Option.isNone_iff_eq_none.mp missing
    simp [Cell.not_meets_none_left]
  · rename_i present
    congr 1
    refine List.filter_congr fun row member => ?_
    have meets := Cell.meets_iff_key ordered ((ordered' row member).cell rightColumn)
    have present : key ≠ none := by simpa using present
    simp [meets, present]

theorem joinRows_eq (ordered : ∀ row ∈ left.rows, row.Numbers Number.HasOrder)
    (ordered' : ∀ row ∈ right.rows, row.Numbers Number.HasOrder) :
    joinRows leftName rightName (left.rows.map fun row => (row.cell leftColumn, row))
      (JoinIndex.build (right.rows.map fun row => (row.cell rightColumn, row))) =
    (meetings left right leftColumn rightColumn).map fun (first, second) =>
      joinRow leftName rightName (first.cell leftColumn) first second := by
  show _ = ((left.rows.flatMap fun first => right.rows.map (Prod.mk first)).filter _).map _
  rw [joinRows_build, List.flatMap_map, List.filter_flatMap, List.map_flatMap]
  refine List.flatMap_congr fun first here => ?_
  dsimp only
  rw [partners_eq ((ordered first here).cell leftColumn) ordered', List.map_map, List.filter_map,
    List.map_map]
  rfl

/-- The entries of a joined row with distinct names: nothing is overwritten. -/
theorem entries_joinRow {key : Cell} {first second : Row}
    (distinct : (joinColumn :: first.keys.map (prefixed leftName) ++
      second.keys.map (prefixed rightName)).Nodup) :
    (joinRow leftName rightName key first second).entries =
      (joinColumn, key) :: first.entries.map (fun entry => (prefixed leftName entry.1, entry.2)) ++
        second.entries.map fun entry => (prefixed rightName entry.1, entry.2) := by
  apply OrderedMap.entries_ofList
  simpa [OrderedMap.keys, Function.comp_def] using distinct

/-- Rows are named by the columns of their table, so distinct columns of the join keep them apart. -/
theorem entries_of_mem_meetings (keyed : left.Keyed Eq) (keyed' : right.Keyed Eq)
    (unique : (joinColumns leftName rightName left right).Nodup) {pair : Row × Row}
    (member : pair ∈ meetings left right leftColumn rightColumn) (key : Cell) :
    (joinRow leftName rightName key pair.1 pair.2).entries =
      (joinColumn, key) :: pair.1.entries.map (fun entry => (prefixed leftName entry.1, entry.2)) ++
        pair.2.entries.map fun entry => (prefixed rightName entry.1, entry.2) := by
  obtain ⟨here, there⟩ := List.mem_product.mp (List.mem_filter.mp member).1
  have parts := unique
  rw [joinColumns, List.cons_append, List.nodup_cons, List.nodup_append] at parts
  obtain ⟨_, uniqueLeft, uniqueRight, _⟩ := parts
  have named : pair.1.keys = left.columns := by
    rw [keyed pair.1 here, Names.distinct_eq_self (uniqueLeft.of_map _)]
  have named' : pair.2.keys = right.columns := by
    rw [keyed' pair.2 there, Names.distinct_eq_self (uniqueRight.of_map _)]
  apply entries_joinRow
  rw [named, named']
  exact unique

/-- Joining comes down to the check for repeated names and the rows of the nested loop. -/
theorem join_eq (apart : leftName ≠ rightName)
    (found : c.lookup? leftName = some left) (found' : c.lookup? rightName = some right)
    (complete : left.Complete) (complete' : right.Complete)
    (ordered : ∀ row ∈ left.rows, row.Numbers Number.HasOrder)
    (ordered' : ∀ row ∈ right.rows, row.Numbers Number.HasOrder)
    (present : leftColumn ∈ left.columns) (present' : rightColumn ∈ right.columns) :
    join c leftName leftColumn rightName rightColumn =
      match Names.firstRepeat? (joinColumns leftName rightName left right) with
      | some name => .error (.columnCollision name)
      | none => .ok (ofParts (joinColumns leftName rightName left right)
        ((meetings left right leftColumn rightColumn).map fun (first, second) =>
          joinRow leftName rightName (first.cell leftColumn) first second) none) := by
  have has : left.requireFor [leftColumn] = .ok () := requireFor_eq_ok.mpr (by simpa using present)
  have has' : right.requireFor [rightColumn] = .ok () := requireFor_eq_ok.mpr (by simpa using present')
  rw [join, if_neg apart, load_eq_ok.mpr found, load_eq_ok.mpr found']
  show (left.requireFor [leftColumn] >>= fun _ => right.requireFor [rightColumn] >>= fun _ => _) = _
  rw [has, has', keyedRows_eq complete' present', keyedRows_eq complete present,
    ← joinRows_eq ordered ordered']
  show (match Names.firstRepeat? (joinColumns leftName rightName left right) with
    | some name => Except.error (StageError.columnCollision name)
    | none => _) = _
  cases Names.firstRepeat? (joinColumns leftName rightName left right) <;> rfl

/-- Joining two tables that have the columns fails exactly if a name of the joined columns comes
twice, and names the first that does. Otherwise the rows are those of the nested loop, each with
the common key and all cells of both rows. -/
theorem join_is_nested_loop (apart : leftName ≠ rightName)
    (found : c.lookup? leftName = some left) (found' : c.lookup? rightName = some right)
    (keyed : left.Keyed Eq) (keyed' : right.Keyed Eq)
    (ordered : ∀ row ∈ left.rows, row.Numbers Number.HasOrder)
    (ordered' : ∀ row ∈ right.rows, row.Numbers Number.HasOrder)
    (present : leftColumn ∈ left.columns) (present' : rightColumn ∈ right.columns) (input : Table) :
    let columns := "_join_" :: left.columns.map (fun name => leftName ++ "_" ++ name) ++
      right.columns.map fun name => rightName ++ "_" ++ name
    let joined := (Stage.join leftName leftColumn rightName rightColumn).apply c input
    (¬ columns.Nodup → ∃ before name after, columns = before ++ name :: after ∧ before.Nodup ∧
      name ∈ before ∧ joined = .error (.columnCollision name)) ∧
    (columns.Nodup → ∃ made, joined = .ok made ∧ made.columns = columns ∧ made.grouping = none ∧
      made.rows.map OrderedMap.entries =
        (meetings left right leftColumn rightColumn).map fun (first, second) =>
          ("_join_", first.cell leftColumn) ::
            first.entries.map (fun (name, cell) => (leftName ++ "_" ++ name, cell)) ++
            second.entries.map fun (name, cell) => (rightName ++ "_" ++ name, cell)) := by
  intro columns joined
  have eq : joined = _ := join_eq apart found found' keyed.complete keyed'.complete ordered ordered'
    present present'
  constructor
  · intro repeated
    obtain ⟨before, name, after, split, unique, again, first⟩ := Names.exists_firstRepeat? repeated
    refine ⟨before, name, after, split, unique, again, ?_⟩
    rw [eq, show Names.firstRepeat? (joinColumns leftName rightName left right) = some name from first]
  · intro unique
    rw [eq, show Names.firstRepeat? (joinColumns leftName rightName left right) = none from
      Names.firstRepeat?_eq_none_iff.mpr unique]
    refine ⟨_, rfl, rfl, rfl, ?_⟩
    show List.map _ (List.map _ _) = _
    rw [List.map_map]
    exact List.map_congr_left fun pair member => entries_of_mem_meetings keyed keyed' unique member _

def parcels : Table :=
  ⟨["id", "y_id"], [(some (.number 0)), none, (some (.number (-0)))].map fun id =>
    .ofList [("id", id), ("y_id", none)], none⟩

def depots : Table :=
  ⟨["id", "city"], [(some (.number (-0)), "Rome"), (some (.text "0"), "Oslo"), (none, "Bonn"),
      (some (.number 0), "Kyiv")].map fun (id, city) =>
    .ofList [("id", id), ("city", some (.text city))], none⟩

/-- Two tables, one of them under two names; the second name makes a prefixed column come twice. -/
def postal : Context :=
  ((Context.empty.addSource "x" parcels).addSource "z" depots).addSource "x_y" depots

theorem join_is_nested_loop_postal :
    (∃ made, (Stage.join "x" "id" "z" "id").apply postal .empty = .ok made ∧
      made.columns = ["_join_", "x_id", "x_y_id", "z_id", "z_city"] ∧
      made.rows.length = 4 ∧
      ((meetings parcels depots "id" "id").map fun pair => pair.2.cell "city") =
        ["Rome", "Kyiv", "Rome", "Kyiv"].map fun city => some (.text city)) ∧
    ∃ before after, joinColumns "x" "x_y" parcels depots = before ++ "x_y_id" :: after ∧
      before.Nodup ∧ "x_y_id" ∈ before ∧
      (Stage.join "x" "id" "x_y" "id").apply postal .empty = .error (.columnCollision "x_y_id") := by
  have named : parcels.Keyed Eq := List.forall_mem_map.mpr fun _ _ => rfl
  have named' : depots.Keyed Eq := List.forall_mem_map.mpr fun _ _ => rfl
  have ordered : ∀ row ∈ parcels.rows, row.Numbers Number.HasOrder := by decide
  have ordered' : ∀ row ∈ depots.rows, row.Numbers Number.HasOrder := by decide
  have cities : ((meetings parcels depots "id" "id").map fun pair => pair.2.cell "city") =
      ["Rome", "Kyiv", "Rome", "Kyiv"].map fun city => some (.text city) := rfl
  obtain ⟨_, joins⟩ := @join_is_nested_loop postal parcels depots "x" "id" "z" "id" (by decide) rfl rfl
    named named' ordered ordered' (by decide) (by decide) .empty
  obtain ⟨collides, _⟩ := @join_is_nested_loop postal parcels depots "x" "id" "x_y" "id" (by decide) rfl
    rfl named named' ordered ordered' (by decide) (by decide) .empty
  obtain ⟨made, ended, columns, _, rows⟩ := joins (by decide)
  obtain ⟨before, name, after, split, unique, again, failed⟩ := collides (by decide)
  have told : (Stage.join "x" "id" "x_y" "id").apply postal .empty =
      .error (.columnCollision "x_y_id") := rfl
  obtain rfl : name = "x_y_id" := StageError.columnCollision.inj (Except.error.inj (failed.symm.trans told))
  refine ⟨⟨made, ended, columns, ?_, cities⟩, before, after, split, unique, again, told⟩
  have sizes := congrArg List.length rows
  rw [List.length_map, List.length_map] at sizes
  rw [sizes, ← List.length_map fun pair => pair.2.cell "city", cities]
  rfl

end Table

end Tableflow
