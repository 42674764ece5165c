import Tableflow.Proofs.Comparison
import Tableflow.Proofs.Integers

/-!
Summaries of groups. A grouping stores numbers of rows, and a summary looks them up in a column that
it reads on its own. What it reduces for a group are the cells of the rows that have the key of the
group, and over all groups these are the cells of the column.
-/

namespace Tableflow

/-! ### Items by their keys -/

section

variable {α κ : Type} [BEq κ] [LawfulBEq κ]

theorem map_getElem?_idxsOf (f : α → κ) (items : List α) (key : κ) :
    ((items.map f).idxsOf key).map (fun place => items[place]?) =
      (items.filter fun item => f item == key).map some := by
  induction items using List.reverseRecOn with
  | nil => rfl
  | append_singleton items item ih =>
    have earlier : ((items.map f).idxsOf key).map (fun place => (items ++ [item])[place]?) =
        ((items.map f).idxsOf key).map fun place => items[place]? := by
      refine List.map_congr_left fun place member => ?_
      have inside := List.lt_add_of_mem_idxsOf place member
      rw [List.length_map, Nat.add_zero] at inside
      rw [List.getElem?_append_left inside]
    rw [List.map_append, List.idxsOf_append, List.map_append, earlier, ih, List.filter_append,
      List.map_append]
    by_cases same : f item = key
    · simp [same]
    · simp [same]

/-- Items that are put together by their keys are the items in another order. -/
theorem flatMap_filter_perm {keys : List κ} (distinct : keys.Nodup) (f : α → κ) {items : List α}
    (covered : ∀ item ∈ items, f item ∈ keys) :
    (keys.flatMap fun key => items.filter fun item => f item == key).Perm items := by
  induction keys generalizing items with
  | nil =>
    obtain rfl : items = [] := List.eq_nil_iff_forall_not_mem.mpr fun item member =>
      List.not_mem_nil (covered item member)
    exact .refl []
  | cons key rest ih =>
    obtain ⟨absent, distinct⟩ := List.nodup_cons.mp distinct
    -- No other key loses an item when those with this key are set aside.
    have others : (rest.flatMap fun other => (items.filter fun item => !(f item == key)).filter
        fun item => f item == other) =
        rest.flatMap fun other => items.filter fun item => f item == other := by
      refine List.flatMap_congr fun other member => ?_
      rw [List.filter_filter]
      refine List.filter_congr fun item _ => ?_
      have apart : other ≠ key := fun same => absent (same ▸ member)
      grind
    rw [List.flatMap_cons, ← others]
    refine .trans (.append_left _ (ih distinct ?_)) (List.filter_append_perm _ items)
    intro item member
    obtain ⟨here, other⟩ := List.mem_filter.mp member
    exact (List.mem_cons.mp (covered item here)).resolve_left (by simpa using other)

end

theorem forall₂_of_mapM {ε α β : Type} {f : α → Except ε β} {items : List α} {results : List β}
    (made : items.mapM f = .ok results) :
    List.Forall₂ (fun item result => f item = .ok result) items results := by
  have same : List.Forall₂ Eq (items.map f) (results.map .ok) := by
    rw [List.forall₂_eq_eq_eq, mapM_eq_ok.mp made]
  exact List.forall₂_map_right_iff.mp (List.forall₂_map_left_iff.mp same)

/-! ### Counts -/

namespace Cell

/-- How many values a column has, missing for none. -/
def ofCount (n : Nat) : Cell := if n = 0 then none else some (.number (Number.ofNat n))

/-- The integer in a cell; anything else counts as zero. -/
def toCount : Cell → Int
  | some (.number x) => (Number.toInt? x).getD 0
  | _ => 0

theorem toCount_ofCount {n : Nat} (small : n ≤ 2 ^ 53) : (ofCount n).toCount = n := by
  unfold ofCount
  split
  · rename_i zero
    rw [zero]
    rfl
  · show (Number.toInt? (Number.nearest false n 1)).getD 0 = n
    rw [Number.toInt?_whole small]
    rfl

end Cell

theorem Summary.reduce_count (cells : List Cell) :
    Summary.count.reduce cells = .ok (Cell.ofCount (cells.countP Option.isSome)) := by
  have size : (cells.filterMap id).length = cells.countP Option.isSome := List.length_filterMap_eq_countP
  unfold reduce
  rw [← size]
  cases cells.filterMap id <;> rfl

/-! ### One group -/

namespace Table

open Grouping (keysOf groupOf)

variable {t made : Table} {s : Summary} {names : List String} {column : String} {key : List Key}

/-- The rows that have the key under the columns, from top to bottom. -/
def rowsWith (t : Table) (names : List String) (key : List Key) : List Row :=
  t.rows.filter fun row => row.key names == key

def cellsWith (t : Table) (names : List String) (key : List Key) (column : String) : List Cell :=
  (t.rowsWith names key).map fun row => row.cell column

theorem map_rows_groupOf (t : Table) (names : List String) (key : List Key) :
    (groupOf names t.rows key).rows.map (fun number => t.rows[number]?) =
      (t.rowsWith names key).map some := map_getElem?_idxsOf _ _ _

/-- The row that a group takes its cells from is the first with its key. -/
theorem exists_head_rowsWith (known : key ∈ keysOf names t.rows) :
    ∃ first, (t.rowsWith names key).head? = some first ∧
      (groupOf names t.rows key).key = first.cells names := by
  obtain ⟨number, first, head, found, kept, _⟩ := Grouping.first_groupOf known
  refine ⟨first, ?_, kept⟩
  have heads := congrArg List.head? (map_rows_groupOf t names key)
  rw [List.head?_map, head, List.head?_map, Option.map_some, found] at heads
  cases rows : (t.rowsWith names key).head? with
  | none => simp [rows] at heads
  | some row => simpa [rows, eq_comm] using heads

/-- Cells that are looked up by numbers of rows are the cells of these rows. -/
theorem mapM_of_lookups {pick : Nat → Except StageError Cell} {numbers : List Nat} {picked : List Row}
    (found : numbers.map (fun number => t.rows[number]?) = picked.map some)
    (picks : ∀ number row, t.rows[number]? = some row → pick number = .ok (row.cell column)) :
    numbers.mapM pick = .ok (picked.map fun row => row.cell column) := by
  rw [mapM_eq_ok]
  induction numbers generalizing picked with
  | nil =>
    obtain rfl := List.map_eq_nil_iff.mp found.symm
    rfl
  | cons number rest ih =>
    obtain ⟨row, others, rfl, first, later⟩ := List.map_eq_cons_iff.mp found.symm
    rw [List.map_cons, picks number row first.symm, ih later.symm, List.map_cons, List.map_cons]

/-- The row of a summary for the rows with one key. -/
def summaryRow (t : Table) (s : Summary) (names : List String) (column : String) (key : List Key) :
    Except StageError Row := do
  let result ← (s.reduce (t.cellsWith names key column)).mapError fun e => .eval (.mismatch e)
  return (OrderedMap.ofList (names.zip (groupOf names t.rows key).key)).insert column result

/-- The row stands for the rows with the key: it has the grouping columns as the first of them does,
and under the summarized column what the cells of all of them are reduced to. -/
structure Summarizes (t : Table) (s : Summary) (names : List String) (column : String) (key : List Key)
    (row : Row) : Prop where
  keys : row.keys = Names.distinct (names ++ [column])
  group : ∃ first, (t.rowsWith names key).head? = some first ∧
    ∀ name ∈ names, name ≠ column → row.get? name = first.get? name
  reduced : ∃ result, s.reduce (t.cellsWith names key column) = .ok result ∧
    row.get? column = some result

theorem zip_cells (row : Row) (names : List String) :
    OrderedMap.ofList (names.zip (row.cells names)) = arrange names row := by
  rw [arrange, Row.cells, List.map_prod_left_eq_zip]

theorem summaryRow_eq_ok (complete : t.Complete) (listed : names ⊆ t.columns)
    (known : key ∈ keysOf names t.rows) {row : Row}
    (ended : t.summaryRow s names column key = .ok row) : t.Summarizes s names column key row := by
  obtain ⟨result, reduced, ended⟩ := bind_eq_ok.mp ended
  obtain rfl := pure_eq_ok.mp ended
  obtain ⟨first, head, kept⟩ := exists_head_rowsWith known
  have member : first ∈ t.rows := (List.mem_filter.mp (List.mem_of_head? head)).1
  rw [kept, zip_cells]
  refine ⟨?_, ⟨first, head, ?_⟩, result, mapError_eq_ok.mp reduced, ?_⟩
  · rw [OrderedMap.keys_insert, keys_arrange, Names.distinct_concat]
    simp only [Names.mem_distinct]
  · intro name named other
    obtain ⟨cell, found⟩ := complete first member name (listed named)
    rw [OrderedMap.get?_insert, if_neg other, get?_arrange named, Row.cell, found, Option.join_some]
  · rw [OrderedMap.get?_insert, if_pos rfl]

theorem summaryRow_eq_error {e : Mismatch} (failed : s.reduce (t.cellsWith names key column) = .error e) :
    t.summaryRow s names column key = .error (.eval (.mismatch e)) := by
  rw [summaryRow, failed]
  rfl

/-! ### All groups -/

/-- A summary reduces the cells of the rows that its members number. -/
theorem summarize_of_members (complete : t.Complete) (present : column ∈ t.columns) {ι : Type}
    {items : List ι} {key : ι → List Cell} {numbers : ι → List Nat} {picked : ι → List Row}
    (members : t.members = items.map fun item => (key item, numbers item))
    (found : ∀ item, (numbers item).map (fun number => t.rows[number]?) = (picked item).map some) :
    t.summarize s column = (do
      let rows ← items.mapM fun item => do
        let result ← (s.reduce ((picked item).map fun row => row.cell column)).mapError fun e =>
          StageError.eval (.mismatch e)
        return (OrderedMap.ofList ((t.groupColumns.getD []).zip (key item))).insert column result
      return ofParts (if (t.groupColumns.getD []).contains column then t.groupColumns.getD []
        else t.groupColumns.getD [] ++ [column]) rows none) := by
  obtain ⟨cells, read⟩ : ∃ cells, t.column column = .ok cells := ⟨_, column_eq_ok.mpr ⟨present, rfl⟩⟩
  -- Every row has the column, so its cells stand at the numbers of their rows.
  obtain rfl := column_eq_map complete read
  unfold summarize
  rw [read, members]
  show (List.mapM _ (List.map _ _) >>= _ : Except StageError Table) = _
  rw [List.mapM_map]
  congr 2
  funext item
  rw [Function.comp_apply]
  dsimp only
  rw [mapM_of_lookups (found item)]
  · rfl
  · intro number row here
    rw [List.getElem?_map, here]
    rfl

theorem summarize_of_grouped (complete : t.Complete) (present : column ∈ t.columns)
    (grouped : t.grouping = some (.build t.rows names)) :
    t.summarize s column = (do
      let rows ← (keysOf names t.rows).eraseDups.mapM (t.summaryRow s names column)
      return ofParts (if names.contains column then names else names ++ [column]) rows none) := by
  have columns : t.groupColumns.getD [] = names := by
    rw [groupColumns, grouped]
    rfl
  have members : t.members = (keysOf names t.rows).eraseDups.map fun key =>
      ((groupOf names t.rows key).key, (groupOf names t.rows key).rows) := by
    unfold Table.members
    rw [grouped]
    dsimp only
    rw [Grouping.groups_build, List.map_map]
    rfl
  rw [summarize_of_members complete present members (map_rows_groupOf t names), columns]
  rfl

theorem summarize_of_ungrouped (complete : t.Complete) (present : column ∈ t.columns)
    (ungrouped : t.grouping = none) :
    t.summarize s column = (do
      let result ← (s.reduce (t.rows.map fun row => row.cell column)).mapError fun e =>
        StageError.eval (.mismatch e)
      return ofParts [column] [OrderedMap.ofList [(column, result)]] none) := by
  have columns : t.groupColumns.getD [] = [] := by
    rw [groupColumns, ungrouped]
    rfl
  have members : t.members = [()].map fun _ => ([], List.range t.rows.length) := by
    unfold Table.members
    rw [ungrouped]
    rfl
  have all : (List.range t.rows.length).map (fun number => t.rows[number]?) = t.rows.map some :=
    List.ext_getElem? fun number => by grind
  rw [summarize_of_members complete present members fun _ => all, columns, List.mapM_cons]
  cases s.reduce (t.rows.map fun row => row.cell column) <;> rfl

/-- Every cell of the column is among the cells of one key. -/
theorem perm_cellsWith (t : Table) (names : List String) (column : String) :
    ((keysOf names t.rows).eraseDups.flatMap fun key => t.cellsWith names key column).Perm
      (t.rows.map fun row => row.cell column) := by
  have covered : ∀ row ∈ t.rows, row.key names ∈ (keysOf names t.rows).eraseDups :=
    fun row member => List.mem_eraseDups.mpr (List.mem_map_of_mem member)
  have rows := flatMap_filter_perm (nodup_eraseDups _) (fun row : Row => row.key names) covered
  have cells := rows.map fun row => row.cell column
  rwa [List.map_flatMap] at cells

theorem sum_countP_cellsWith (t : Table) (names : List String) (column : String) :
    ((keysOf names t.rows).eraseDups.map fun key =>
      (t.cellsWith names key column).countP Option.isSome).sum =
        t.rows.countP fun row => (row.cell column).isSome := by
  have total := (perm_cellsWith t names column).countP_eq Option.isSome
  rwa [List.countP_flatMap, List.countP_map] at total

theorem exists_summaryRow {result : Cell} (reduced : s.reduce (t.cellsWith names key column) = .ok result) :
    ∃ row, t.summaryRow s names column key = .ok row :=
  ⟨_, bind_eq_ok.mpr ⟨result, mapError_eq_ok.mpr reduced, rfl⟩⟩

theorem exists_summary (regular : t.Regular Eq) (present : column ∈ t.columns)
    (grouped : t.groupColumns = some names)
    (reduced : ∀ key ∈ (keysOf names t.rows).eraseDups,
      ∃ result, s.reduce (t.cellsWith names key column) = .ok result) :
    ∃ made, t.summarize s column = .ok made ∧ made.grouping = none ∧
      made.columns = (if column ∈ names then names else names ++ [column]) ∧
      List.Forall₂ (t.Summarizes s names column) (keysOf names t.rows).eraseDups made.rows := by
  have complete := regular.keyed.complete
  obtain ⟨rows, made⟩ : ∃ rows,
      (keysOf names t.rows).eraseDups.mapM (t.summaryRow s names column) = .ok rows := by
    refine exists_mapM fun key member => ?_
    obtain ⟨result, reduced⟩ := reduced key member
    exact exists_summaryRow reduced
  refine ⟨ofParts (if names.contains column then names else names ++ [column]) rows none, ?_, rfl, ?_, ?_⟩
  · rw [summarize_of_grouped complete present (regular.fresh.grouping_eq grouped), made]
    rfl
  · simp [ofParts]
  · have each := forall₂_of_mapM made
    refine List.forall₂_iff_zip.mpr ⟨each.length_eq, fun {key row} paired => ?_⟩
    have known := List.mem_eraseDups.mp (List.of_mem_zip paired).1
    exact summaryRow_eq_ok complete (regular.fresh.present grouped) known
      ((List.forall₂_iff_zip.mp each).2 paired)

theorem summarize_eq_error (regular : t.Regular Eq) (present : column ∈ t.columns)
    (grouped : t.groupColumns = some names) {before after : List (List Key)} {e : Mismatch}
    (split : (keysOf names t.rows).eraseDups = before ++ key :: after)
    (reduced : ∀ earlier ∈ before, ∃ result, s.reduce (t.cellsWith names earlier column) = .ok result)
    (failed : s.reduce (t.cellsWith names key column) = .error e) :
    t.summarize s column = .error (.eval (.mismatch e)) := by
  rw [summarize_of_grouped regular.keyed.complete present (regular.fresh.grouping_eq grouped),
    bind_pure_eq_error, mapM_eq_error]
  refine ⟨before, key, after, split, fun earlier member => ?_, summaryRow_eq_error failed⟩
  obtain ⟨result, reduced⟩ := reduced earlier member
  exact exists_summaryRow reduced

/-- Counting never fails, and under the column there is how many values each key has. -/
theorem exists_counted (regular : t.Regular Eq) (present : column ∈ t.columns)
    (grouped : t.groupColumns = some names) :
    ∃ counted, t.summarize .count column = .ok counted ∧
      (counted.rows.map fun row => row.cell column) = (keysOf names t.rows).eraseDups.map fun key =>
        Cell.ofCount ((t.cellsWith names key column).countP Option.isSome) := by
  obtain ⟨counted, made, _, _, each⟩ := exists_summary (s := .count) regular present grouped
    fun key _ => ⟨_, Summary.reduce_count _⟩
  refine ⟨counted, made, ?_⟩
  rw [eq_comm, ← List.forall₂_eq_eq_eq, List.forall₂_map_left_iff, List.forall₂_map_right_iff]
  refine each.imp fun key row summarized => ?_
  obtain ⟨result, reduced, held⟩ := summarized.reduced
  rw [Summary.reduce_count] at reduced
  rw [Row.cell, held, Except.ok.inj reduced, Option.join_some]

theorem sum_toCount {sizes : List Nat} (small : sizes.sum ≤ 2 ^ 53) :
    ((sizes.map Cell.ofCount).map Cell.toCount).sum = sizes.sum := by
  induction sizes with
  | nil => rfl
  | cons size rest ih =>
    rw [List.sum_cons] at small
    rw [List.map_cons, List.map_cons, List.sum_cons, ih (by omega), Cell.toCount_ofCount (by omega),
      List.sum_cons, Nat.cast_add]

/-- A summary of a grouped table has one row for every key, in the order in which the keys first appear,
and fails as the first key does that cannot be reduced. The cells of the keys are together the cells of
the column, so the counts add up. Without a grouping there is one row for the whole column. -/
theorem summarize_reduces_each_key (regular : t.Regular Eq) (s : Summary) (present : column ∈ t.columns) :
    (∀ names, t.groupColumns = some names →
      ((∀ key ∈ (keysOf names t.rows).eraseDups,
          ∃ result, s.reduce (t.cellsWith names key column) = .ok result) →
        ∃ made, t.summarize s column = .ok made ∧ made.grouping = none ∧
          made.columns = (if column ∈ names then names else names ++ [column]) ∧
          List.Forall₂ (t.Summarizes s names column) (keysOf names t.rows).eraseDups made.rows) ∧
      (∀ before key after e, (keysOf names t.rows).eraseDups = before ++ key :: after →
        (∀ earlier ∈ before, ∃ result, s.reduce (t.cellsWith names earlier column) = .ok result) →
        s.reduce (t.cellsWith names key column) = .error e →
        t.summarize s column = .error (.eval (.mismatch e))) ∧
      ((keysOf names t.rows).eraseDups.flatMap fun key => t.cellsWith names key column).Perm
        (t.rows.map fun row => row.cell column) ∧
      ∃ counted, t.summarize .count column = .ok counted ∧
        ((counted.rows.map fun row => row.cell column) = (keysOf names t.rows).eraseDups.map fun key =>
          Cell.ofCount ((t.cellsWith names key column).countP Option.isSome)) ∧
        (((keysOf names t.rows).eraseDups.map fun key =>
          (t.cellsWith names key column).countP Option.isSome).sum =
            t.rows.countP fun row => (row.cell column).isSome) ∧
        ((t.rows.countP fun row => (row.cell column).isSome) ≤ 2 ^ 53 →
          (counted.rows.map fun row => (row.cell column).toCount).sum =
            t.rows.countP fun row => (row.cell column).isSome)) ∧
    (t.groupColumns = none →
      (∀ result, s.reduce (t.rows.map fun row => row.cell column) = .ok result →
        ∃ made, t.summarize s column = .ok made ∧ made.grouping = none ∧ made.columns = [column] ∧
          made.rows.map OrderedMap.entries = [[(column, result)]]) ∧
      ∀ e, s.reduce (t.rows.map fun row => row.cell column) = .error e →
        t.summarize s column = .error (.eval (.mismatch e))) := by
  constructor
  · intro names grouped
    refine ⟨exists_summary regular present grouped, fun before key after e split reduced failed =>
      summarize_eq_error regular present grouped split reduced failed, perm_cellsWith t names column, ?_⟩
    obtain ⟨counted, made, cells⟩ := exists_counted regular present grouped
    have total := sum_countP_cellsWith t names column
    refine ⟨counted, made, cells, total, fun small => ?_⟩
    rw [← total] at small ⊢
    rw [← sum_toCount small, List.map_map (f := fun key => List.countP _ _), Function.comp_def, ← cells,
      List.map_map]
    rfl
  · intro ungrouped
    rw [summarize_of_ungrouped regular.keyed.complete present (Option.map_eq_none_iff.mp ungrouped)]
    constructor
    · intro result reduced
      rw [reduced]
      exact ⟨_, rfl, rfl, rfl, rfl⟩
    · intro e failed
      rw [failed]
      rfl

/-- Points of teams, one of them unnamed; the team is a grouping column twice. -/
def scores : Table :=
  let row team points : Row := .ofList [("team", team), ("points", points)]
  .ofParts ["team", "points"]
    [row (some (.text "red")) (some (.number (Number.ofNat 2))),
      row none (some (.number (Number.ofNat 5))),
      row (some (.text "red")) none,
      row (some (.text "blue")) (some (.text "x"))]
    (some ["team", "team"])

def unscored : Table := ⟨["points"], [], none⟩

theorem regular_scores : scores.Regular Eq := by
  have keyed : ∀ row ∈ scores.rows, row.keys = Names.distinct scores.columns := by decide
  refine ⟨fresh_ofParts ?_, keyed⟩
  rintro names ⟨⟩
  decide

theorem keys_scores : (keysOf ["team", "team"] scores.rows).eraseDups =
    [[.text "red", .text "red"], [.missing, .missing], [.text "blue", .text "blue"]] := by decide

theorem summarize_reduces_scores :
    (∃ made, scores.summarize .maximum "points" = .ok made ∧ made.columns = ["team", "team", "points"] ∧
      List.Forall₂ (scores.Summarizes .maximum ["team", "team"] "points")
        [[.text "red", .text "red"], [.missing, .missing], [.text "blue", .text "blue"]] made.rows) ∧
    scores.summarize .sum "points" = .error (.eval (.mismatch (.required .number "sum" .text))) ∧
    (∃ counted, scores.summarize .count "points" = .ok counted ∧
      (counted.rows.map fun row => (row.cell "points").toCount).sum = 3) ∧
    ∃ made, unscored.summarize .sum "points" = .ok made ∧
      made.rows.map OrderedMap.entries = [[("points", none)]] := by
  have listed : "points" ∈ scores.columns := by decide
  have empty : unscored.Regular Eq := ⟨fresh_of_ungrouped rfl, List.forall_mem_nil _⟩
  have grouped : scores.groupColumns = some ["team", "team"] := rfl
  refine ⟨?_, ?_, ?_, ?_⟩
  · obtain ⟨reducible, _⟩ := (summarize_reduces_each_key regular_scores .maximum listed).1 _ grouped
    obtain ⟨made, ended, _, columns, each⟩ := reducible <| by
      simp only [keys_scores, List.forall_mem_cons]
      exact ⟨⟨_, rfl⟩, ⟨_, rfl⟩, ⟨_, rfl⟩, List.forall_mem_nil _⟩
    exact ⟨made, ended, columns, keys_scores ▸ each⟩
  · obtain ⟨_, failing, _⟩ := (summarize_reduces_each_key regular_scores .sum listed).1 _ grouped
    refine failing [_, _] _ [] _ keys_scores ?_ rfl
    simp only [List.forall_mem_cons]
    exact ⟨⟨_, rfl⟩, ⟨_, rfl⟩, List.forall_mem_nil _⟩
  · obtain ⟨_, _, _, counted, ended, _, _, total⟩ :=
      (summarize_reduces_each_key regular_scores .count listed).1 _ grouped
    exact ⟨counted, ended, total (by decide)⟩
  · obtain ⟨made, ended, _, _, rows⟩ :=
      ((summarize_reduces_each_key empty .sum (List.mem_singleton_self _)).2 rfl).1 none rfl
    exact ⟨made, ended, rows⟩

end Table

end Tableflow
