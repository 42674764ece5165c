import Tableflow.Proofs.Finiteness

/-!
The order in which rows are sorted. Rows whose cells under each sort column are of one kind are
compared by a total preorder, upwards or downwards, and sorting is the stable sort by it.
-/

namespace Tableflow

open Std (TransCmp OrientedCmp)

/-! ### Cells -/

def Number.HasOrder (x : Float) : Prop := x ≠ .nan

instance : DecidablePred Number.HasOrder := fun _ => decidable_of_iff _ Number.ne_nan_iff.symm

theorem Number.hasOrder_of_isFinite {x : Float} (finite : IsFinite x) : HasOrder x :=
  ne_nan_of_isFinite finite

instance : TransCmp Datetime.compare :=
  inferInstanceAs <| TransCmp <|
    compareLex (compareOn fun d : Datetime => d.date.year) <|
    compareLex (compareOn fun d : Datetime => d.date.month) <|
    compareLex (compareOn fun d : Datetime => d.date.day) <|
    compareLex (compareOn fun d : Datetime => d.hour) <|
    compareLex (compareOn fun d : Datetime => d.minute) <|
    compareLex (compareOn fun d : Datetime => d.second) <|
    compareOn fun d : Datetime => d.nanosecond

namespace Cell

variable {a b c : Cell}

/-- Two cells of one kind, where missing cells are of every kind. -/
def SameKind (a b : Cell) : Prop := ∀ v ∈ a, ∀ w ∈ b, v.kind = w.kind

theorem compare_number {x y : Float} (first : Number.HasOrder x) (second : Number.HasOrder y) :
    compare (some (.number x)) (some (.number y)) =
      Ord.compare (Number.position x) (Number.position y) := by
  rw [compare, Value.compare?, Number.compare?_eq first second, Option.getD_some]

theorem compare_swap (first : a.Numbers Number.HasOrder) (second : b.Numbers Number.HasOrder) :
    compare a b = (compare b a).swap := by
  cases a with
  | none => cases b <;> rfl
  | some v =>
    cases b with
    | none => rfl
    | some w =>
      cases v with
      | logical a =>
        cases w with
        | logical b => exact (OrientedCmp.eq_swap : Ord.compare a b = _)
        | _ => rfl
      | number x =>
        cases w with
        | number y =>
          rw [compare_number first second, compare_number second first]
          exact OrientedCmp.eq_swap
        | _ => rfl
      | text a =>
        cases w with
        | text b => exact (OrientedCmp.eq_swap : Ord.compare a b = _)
        | _ => rfl
      | datetime a =>
        cases w with
        | datetime b => exact (OrientedCmp.eq_swap : Datetime.compare a b = _)
        | _ => rfl

/-- Values of one kind are compared by a transitive order of that kind. -/
theorem compare_trans (first : a.Numbers Number.HasOrder) (second : b.Numbers Number.HasOrder)
    (third : c.Numbers Number.HasOrder) (alike : SameKind a b) (alike' : SameKind b c)
    (below : (compare a b).isLE) (below' : (compare b c).isLE) : (compare a c).isLE := by
  cases a with
  | none => cases c <;> rfl
  | some v =>
    cases b with
    | none => cases below
    | some w =>
      cases c with
      | none => cases below'
      | some u =>
        have kind : v.kind = w.kind := alike v rfl w rfl
        have kind' : w.kind = u.kind := alike' w rfl u rfl
        cases v with
        | logical a =>
          cases w with
          | logical b =>
            cases u with
            | logical c => exact (TransCmp.isLE_trans below below' : (Ord.compare a c).isLE)
            | _ => cases kind'
          | _ => cases kind
        | number x =>
          cases w with
          | number y =>
            cases u with
            | number z =>
              rw [compare_number first second] at below
              rw [compare_number second third] at below'
              rw [compare_number first third]
              exact TransCmp.isLE_trans below below'
            | _ => cases kind'
          | _ => cases kind
        | text a =>
          cases w with
          | text b =>
            cases u with
            | text c => exact (TransCmp.isLE_trans below below' : (Ord.compare a c).isLE)
            | _ => cases kind'
          | _ => cases kind
        | datetime a =>
          cases w with
          | datetime b =>
            cases u with
            | datetime c => exact (TransCmp.isLE_trans below below' : (Datetime.compare a c).isLE)
            | _ => cases kind'
          | _ => cases kind

end Cell

/-! ### Rows -/

namespace Row

variable {rows : List Row} {names : List String}

/-- Order of rows by the cells under the columns, read backwards if `descending`. -/
def compareBy (names : List String) (descending : Bool) (a b : Row) : Ordering :=
  if descending then (Table.compareCells (a.cells names) (b.cells names)).swap
  else Table.compareCells (a.cells names) (b.cells names)

theorem transCmp_cell {name : String} (ordered : ∀ row ∈ rows, (row.cell name).Numbers Number.HasOrder)
    (alike : ∀ a ∈ rows, ∀ b ∈ rows, Cell.SameKind (a.cell name) (b.cell name)) :
    TransCmp fun a b : { row // row ∈ rows } => Cell.compare (a.1.cell name) (b.1.cell name) where
  eq_swap {a b} := Cell.compare_swap (ordered a a.2) (ordered b b.2)
  isLE_trans {a b c} := Cell.compare_trans (ordered a a.2) (ordered b b.2) (ordered c c.2)
    (alike a a.2 b b.2) (alike b b.2 c c.2)

theorem transCmp_cells
    (ordered : ∀ name ∈ names, ∀ row ∈ rows, (row.cell name).Numbers Number.HasOrder)
    (alike : ∀ name ∈ names, ∀ a ∈ rows, ∀ b ∈ rows, Cell.SameKind (a.cell name) (b.cell name)) :
    TransCmp fun a b : { row // row ∈ rows } =>
      Table.compareCells (a.1.cells names) (b.1.cells names) := by
  induction names with
  | nil => exact { eq_swap := rfl, isLE_trans := fun _ _ => rfl }
  | cons name rest ih =>
    rw [List.forall_mem_cons] at ordered alike
    have := transCmp_cell ordered.1 alike.1
    have := ih ordered.2 alike.2
    exact inferInstanceAs (TransCmp (compareLex
      (fun a b : { row // row ∈ rows } => Cell.compare (a.1.cell name) (b.1.cell name))
      fun a b => Table.compareCells (a.1.cells rest) (b.1.cells rest)))

/-- A column of one kind without not-a-number orders rows, downwards too. -/
theorem transCmp_compareBy (descending : Bool)
    (ordered : ∀ name ∈ names, ∀ row ∈ rows, (row.cell name).Numbers Number.HasOrder)
    (alike : ∀ name ∈ names, ∀ a ∈ rows, ∀ b ∈ rows, Cell.SameKind (a.cell name) (b.cell name)) :
    TransCmp fun a b : { row // row ∈ rows } => compareBy names descending a b := by
  have upwards := transCmp_cells ordered alike
  cases descending with
  | false => exact upwards
  | true =>
    have turned : (fun a b : { row // row ∈ rows } => compareBy names true a b) =
        fun a b => Table.compareCells (b.1.cells names) (a.1.cells names) := by
      funext a b
      exact (upwards.eq_swap (a := b) (b := a)).symm
    rw [turned]
    exact TransCmp.opposite

end Row

/-! ### Sorting -/

section

variable {α β : Type}

theorem insertBehind_map (f : α → β) (before : β → β → Bool) (item : α) (sorted : List α) :
    insertBehind before (f item) (sorted.map f) =
      (insertBehind (fun a b => before (f a) (f b)) item sorted).map f := by
  induction sorted with
  | nil => rfl
  | cons last rest ih =>
    rw [List.map_cons, insertBehind, insertBehind]
    split
    · rw [ih, List.map_cons]
    · rfl

theorem stableSort_map (f : α → β) (before : β → β → Bool) (items : List α) :
    stableSort before (items.map f) =
      (stableSort (fun a b => before (f a) (f b)) items).map f := by
  have folded (sorted : List α) :
      (items.map f).foldl (fun sorted item => insertBehind before item sorted) (sorted.map f) =
        (items.foldl (fun sorted item =>
          insertBehind (fun a b => before (f a) (f b)) item sorted) sorted).map f := by
    induction items generalizing sorted with
    | nil => rfl
    | cons item rest ih => rw [List.map_cons, List.foldl_cons, insertBehind_map, ih, List.foldl_cons]
  rw [stableSort, stableSort, List.map_reverse]
  exact congrArg List.reverse (folded [])

theorem forM_eq_ok {ε : Type} {f : α → Except ε Unit} {items : List α} :
    items.forM f = .ok () ↔ ∀ item ∈ items, f item = .ok () := by
  induction items with
  | nil => simp [pure_eq_ok]
  | cons item rest ih =>
    show (f item >>= fun _ => rest.forM f) = .ok () ↔ _
    rw [guarded_eq_ok, ih, List.forall_mem_cons]

end

namespace Table

variable {t made : Table} {names : List String}

/-- Every row has a cell under every column. -/
def Complete (t : Table) : Prop :=
  ∀ row ∈ t.rows, ∀ name ∈ t.columns, ∃ cell, row.get? name = some cell

theorem Keyed.complete (keyed : t.Keyed Eq) : t.Complete := by
  intro row member name listed
  rw [← OrderedMap.mem_keys_iff, keyed row member, Names.mem_distinct]
  exact listed

theorem presentCell_eq {row : Row} {name : String} (present : ∃ cell, row.get? name = some cell) :
    presentCell row name = .ok (row.cell name) := by
  obtain ⟨cell, found⟩ := present
  simp only [presentCell, Row.cell, found, Option.join_some]

theorem sameKind_of_oddKind? {cells : List Cell} (even : oddKind? cells = none) :
    ∀ a ∈ cells, ∀ b ∈ cells, a.SameKind b := by
  have uniform : ∃ kind, ∀ v ∈ cells.filterMap id, v.kind = kind := by
    unfold oddKind? at even
    split at even
    · rename_i none
      exact ⟨.logical, fun v member => by simp only [none, List.not_mem_nil] at member⟩
    · rename_i first rest values
      rw [Option.map_eq_none_iff, List.find?_eq_none] at even
      rw [values]
      exact ⟨first.kind, by simpa using even⟩
  obtain ⟨kind, uniform⟩ := uniform
  intro a here b there v first w second
  rw [uniform v (List.mem_filterMap.mpr ⟨a, here, first⟩),
    uniform w (List.mem_filterMap.mpr ⟨b, there, second⟩)]

/-- A column of a complete table has a cell for every row. -/
theorem column_eq_map (complete : t.Complete) {name : String} {cells : List Cell}
    (found : t.column name = .ok cells) : cells = t.rows.map fun row => row.cell name := by
  obtain ⟨listed, rfl⟩ := column_eq_ok.mp found
  rw [← List.filterMap_eq_map]
  apply List.filterMap_congr
  intro row member
  obtain ⟨cell, here⟩ := complete row member name listed
  rw [Function.comp, Row.cell, here, Option.join_some]

theorem sameKind_of_requireSortable (complete : t.Complete) {name : String}
    (sortable : t.requireSortable name = .ok ()) :
    ∀ a ∈ t.rows, ∀ b ∈ t.rows, Cell.SameKind (a.cell name) (b.cell name) := by
  obtain ⟨cells, found, even⟩ := bind_eq_ok.mp sortable
  have found := mapError_eq_ok.mp found
  split at even
  · cases even
  · rename_i uniform
    rw [column_eq_map complete found] at uniform
    exact fun a here b there => sameKind_of_oddKind? uniform _ (List.mem_map_of_mem here) _
      (List.mem_map_of_mem there)

theorem mapM_presentCell (complete : t.Complete) (present : names ⊆ t.columns) {row : Row}
    (member : row ∈ t.rows) : names.mapM (presentCell row) = .ok (row.cells names) := by
  rw [mapM_eq_ok, Row.cells, List.map_map]
  exact List.map_congr_left fun name listed =>
    presentCell_eq (complete row member name (present listed))

/-- Sorting a complete table is the stable sort of its rows. -/
theorem sort_eq (complete : t.Complete) (descending : Bool) (present : names ⊆ t.columns)
    (sortable : ∀ name ∈ names, t.requireSortable name = .ok ()) :
    t.sort names descending = .ok (ofParts t.columns
      (stableSort (fun a b => (Row.compareBy names descending a b).isLT) t.rows) t.groupColumns) := by
  have keyed : (t.rows.mapM fun row => do return (← names.mapM (presentCell row), row)) =
      .ok (t.rows.map fun row => (row.cells names, row)) := by
    rw [mapM_eq_ok, List.map_map]
    refine List.map_congr_left fun row member => ?_
    rw [mapM_presentCell complete present member]
    rfl
  have split : t.sort names descending = (do
      let keyed ← t.rows.mapM fun row => do return (← names.mapM (presentCell row), row)
      let order (a b : List Cell × Row) : Ordering :=
        if descending then (compareCells a.1 b.1).swap else compareCells a.1 b.1
      return ofParts t.columns ((stableSort (fun a b => (order a b).isLT) keyed).map Prod.snd)
        t.groupColumns) := by
    rw [sort, requireFor_eq_ok.mpr present, forM_eq_ok.mpr sortable]
    rfl
  rw [split, keyed]
  show Except.ok (ofParts _ (List.map Prod.snd (stableSort _ (List.map _ _))) _) = _
  rw [stableSort_map, List.map_map]
  exact congrArg (fun rows => Except.ok (ofParts t.columns rows t.groupColumns)) (List.map_id _)

end Table

end Tableflow
