import Tableflow.Proofs.Export
import Tableflow.Proofs.Joining

/-!
Rows that come first. Rows are told apart by keys in two ways: `unique` keeps a row if no earlier one
has its key, and a grouping opens a group for it. Both keep the same rows, and these are the rows
that match no earlier row cell by cell.
-/

namespace Tableflow

/-! ### Cells that match -/

namespace Cell

variable {a b : Cell}

/-- Both cells are missing, or both are values of one kind that are equal. -/
def Matches : Cell → Cell → Prop
  | none, none => True
  | some v, some w => v.kind = w.kind ∧ v.equal w = true
  | _, _ => False

instance : (a b : Cell) → Decidable (a.Matches b)
  | none, none => .isTrue trivial
  | some v, some w => inferInstanceAs (Decidable (v.kind = w.kind ∧ v.equal w = true))
  | none, some _ => .isFalse id
  | some _, none => .isFalse id

theorem key_eq_iff_matches (first : a.Numbers Number.HasOrder) (second : b.Numbers Number.HasOrder) :
    a.key = b.key ↔ a.Matches b := by
  cases a with
  | none => cases b with
    | none => simp [Matches]
    | some w => cases w <;> simp [key, Matches]
  | some v => cases b with
    | none => cases v <;> simp [key, Matches]
    | some w =>
      rw [key_some_eq_iff first second]
      exact ⟨fun equal => ⟨Value.kind_eq_of_equal equal, equal⟩, And.right⟩

end Cell

namespace Row

/-- The cells under each of the columns match. -/
def Matches (names : List String) (a b : Row) : Prop :=
  ∀ name ∈ names, (a.cell name).Matches (b.cell name)

instance (names : List String) (a b : Row) : Decidable (Matches names a b) :=
  inferInstanceAs (Decidable (∀ name ∈ names, (a.cell name).Matches (b.cell name)))

theorem key_eq_iff_matches {names : List String} {a b : Row} (first : a.Numbers Number.HasOrder)
    (second : b.Numbers Number.HasOrder) : a.key names = b.key names ↔ Matches names a b := by
  rw [key, key, cells, cells, List.map_map, List.map_map, List.map_inj_left]
  exact forall₂_congr fun name _ => Cell.key_eq_iff_matches (first.cell name) (second.cell name)

end Row

/-! ### Rows with new keys -/

namespace Table

open Grouping (keysOf keysOf_concat build)

variable {columns names : List String} {rows : List Row}

theorem firstRows_concat (columns : List String) (seen : List (List Key)) (rows : List Row) (row : Row) :
    firstRows columns seen (rows ++ [row]) = firstRows columns seen rows ++
      if row.key columns ∈ seen ∨ row.key columns ∈ keysOf columns rows then [] else [row] := by
  -- From the front, as the keys that are seen grow with the rows that are passed.
  induction rows generalizing seen with
  | nil => by_cases known : row.key columns ∈ seen <;> simp [firstRows, keysOf, known]
  | cons first rest ih =>
    have keys : keysOf columns (first :: rest) = first.key columns :: keysOf columns rest := rfl
    rw [List.cons_append, firstRows, firstRows, ih, ih, keys]
    by_cases known : first.key columns ∈ seen
    · have same : row.key columns ∈ seen ∨ row.key columns ∈ keysOf columns rest ↔
          row.key columns ∈ seen ∨ row.key columns ∈ first.key columns :: keysOf columns rest := by
        grind
      simp only [known, if_true, same]
    · have same : row.key columns ∈ first.key columns :: seen ∨ row.key columns ∈ keysOf columns rest ↔
          row.key columns ∈ seen ∨ row.key columns ∈ first.key columns :: keysOf columns rest := by
        grind
      simp only [known, if_false, same, List.cons_append]

/-- Each row is kept or left out by the keys of the rows before it. -/
theorem firstRows_nil_concat (columns : List String) (rows : List Row) (row : Row) :
    firstRows columns [] (rows ++ [row]) = firstRows columns [] rows ++
      if row.key columns ∈ keysOf columns rows then [] else [row] := by
  simp [firstRows_concat]

theorem keysOf_firstRows (columns : List String) (rows : List Row) :
    keysOf columns (firstRows columns [] rows) = (keysOf columns rows).eraseDups := by
  induction rows using List.reverseRecOn with
  | nil => rfl
  | append_singleton rows row ih =>
    rw [firstRows_nil_concat, keysOf_concat, eraseDups_concat, ← ih]
    split
    · rw [List.append_nil]
    · rw [keysOf_concat]

theorem nodup_keysOf_firstRows (columns : List String) (rows : List Row) :
    (keysOf columns (firstRows columns [] rows)).Nodup := by
  rw [keysOf_firstRows]
  exact nodup_eraseDups _

theorem firstRows_eq_self (distinct : (keysOf columns rows).Nodup) : firstRows columns [] rows = rows := by
  induction rows using List.reverseRecOn with
  | nil => rfl
  | append_singleton rows row ih =>
    rw [keysOf_concat, List.nodup_append] at distinct
    obtain ⟨distinct, _, apart⟩ := distinct
    have fresh : row.key columns ∉ keysOf columns rows :=
      fun known => apart _ known _ (List.mem_singleton.mpr rfl) rfl
    rw [firstRows_nil_concat, ih distinct, if_neg fresh]

/-- The rows kept are those whose key no earlier row has. -/
theorem firstRows_eq_filter (columns : List String) (rows : List Row) :
    firstRows columns [] rows = (rows.zipIdx.filter fun entry =>
      entry.1.key columns ∉ keysOf columns (rows.take entry.2)).map Prod.fst := by
  induction rows using List.reverseRecOn with
  | nil => rfl
  | append_singleton rows row ih =>
    have earlier : (rows.zipIdx.filter fun entry =>
        entry.1.key columns ∉ keysOf columns ((rows ++ [row]).take entry.2)) =
        rows.zipIdx.filter fun entry => entry.1.key columns ∉ keysOf columns (rows.take entry.2) := by
      refine List.filter_congr fun entry member => ?_
      have inside := List.snd_lt_of_mem_zipIdx member
      rw [List.take_append_of_le_length (by omega)]
    rw [firstRows_nil_concat, ih, List.zipIdx_append, List.filter_append, List.map_append, earlier]
    congr 1
    by_cases known : row.key columns ∈ keysOf columns rows <;> simp [known]

/-- The first row with each key, in the order in which the keys first come. -/
theorem map_some_firstRows (columns : List String) (rows : List Row) :
    (firstRows columns [] rows).map some =
      (keysOf columns rows).eraseDups.map fun key => rows[(keysOf columns rows).idxOf key]? := by
  induction rows using List.reverseRecOn with
  | nil => rfl
  | append_singleton rows row ih =>
    have kept : ((keysOf columns rows).eraseDups.map fun key =>
        (rows ++ [row])[(keysOf columns rows ++ [row.key columns]).idxOf key]?) =
        (firstRows columns [] rows).map some := by
      rw [ih]
      refine List.map_congr_left fun key member => ?_
      have known := List.mem_eraseDups.mp member
      have inside : (keysOf columns rows).idxOf key < rows.length := by
        simpa [keysOf] using List.idxOf_lt_length_of_mem known
      rw [List.idxOf_append_of_mem known, List.getElem?_append_left inside]
    rw [firstRows_nil_concat, keysOf_concat, eraseDups_concat, List.map_append]
    split
    · rw [kept, List.map_nil, List.append_nil]
    · rename_i fresh
      rw [List.map_append, kept, List.map_singleton, List.map_singleton,
        List.idxOf_append_of_notMem fresh]
      simp [keysOf]

theorem firstRows_eq_heads (columns : List String) (rows : List Row) :
    (firstRows columns [] rows).map some = (build rows columns).groups.map fun group =>
      group.rows.head?.bind fun number => rows[number]? := by
  rw [map_some_firstRows, Grouping.groups_build, List.map_map]
  refine List.map_congr_left fun key member => ?_
  obtain ⟨_, _, head, _, _, rfl⟩ := Grouping.first_groupOf (List.mem_eraseDups.mp member)
  simp [head]

/-- Where no two rows share a key, every row is a group. -/
theorem rows_of_mem_groups (distinct : (keysOf columns rows).Nodup) {group : Group}
    (member : group ∈ (build rows columns).groups) : ∃ number, group.rows = [number] := by
  obtain ⟨key, known, rfl⟩ := Grouping.mem_groups_build.mp member
  have once : (keysOf columns rows).count key = 1 := List.count_eq_one_of_mem distinct known
  rw [← List.length_idxsOf] at once
  exact List.length_eq_one_iff.mp once

/-! ### Tables -/

variable {t : Table}

/-- Keys tell rows apart as their cells do. -/
theorem firstRows_eq_unmatched (ordered : ∀ row ∈ rows, row.Numbers Number.HasOrder) :
    firstRows names [] rows = (rows.zipIdx.filter fun (row, place) =>
      ∀ earlier ∈ rows.take place, ¬ Row.Matches names earlier row).map Prod.fst := by
  rw [firstRows_eq_filter]
  congr 1
  refine List.filter_congr ?_
  rintro ⟨row, place⟩ member
  have here := List.fst_mem_of_mem_zipIdx member
  rw [decide_eq_decide, Grouping.keysOf, List.mem_map]
  constructor
  · intro fresh earlier before same
    exact fresh ⟨earlier, before, (Row.key_eq_iff_matches (ordered _ (List.mem_of_mem_take before))
      (ordered _ here)).mpr same⟩
  · rintro apart ⟨earlier, before, same⟩
    exact apart earlier before ((Row.key_eq_iff_matches (ordered _ (List.mem_of_mem_take before))
      (ordered _ here)).mp same)

theorem unique_unique {made : Table} (ended : t.unique names = .ok made) : made.unique names = .ok made := by
  obtain ⟨present, rfl⟩ := unique_eq_ok.mp ended
  refine unique_eq_ok.mpr ⟨present, ?_⟩
  rw [groupColumns_ofParts]
  exact congrArg (fun rows => ofParts t.columns rows t.groupColumns)
    (firstRows_eq_self (nodup_keysOf_firstRows names t.rows))

/-- Without not-a-number, the rows that `unique` keeps are the first rows of the groups by the same
columns, in order. They are the rows that match no earlier row under each of the columns, unchanged
and in their order; keeping them again changes nothing, and each is a group of its own. -/
theorem unique_keeps_group_heads (ordered : ∀ row ∈ t.rows, row.Numbers Number.HasOrder)
    (present : names ⊆ t.columns) :
    ∃ made grouped grouping, t.unique names = .ok made ∧ t.groupBy names = .ok grouped ∧
      grouped.grouping = some grouping ∧
      (made.rows.map some = grouping.groups.map fun group =>
        group.rows.head?.bind fun number => t.rows[number]?) ∧
      (made.rows = (t.rows.zipIdx.filter fun (row, place) =>
        ∀ earlier ∈ t.rows.take place, ¬ Row.Matches names earlier row).map Prod.fst) ∧
      made.rows.Sublist t.rows ∧ made.unique names = .ok made ∧
      ∃ regrouped regrouping, made.groupBy names = .ok regrouped ∧
        regrouped.grouping = some regrouping ∧
        ∀ group ∈ regrouping.groups, ∃ number, group.rows = [number] := by
  obtain ⟨made, ended⟩ : ∃ made, t.unique names = .ok made := ⟨_, unique_eq_ok.mpr ⟨present, rfl⟩⟩
  have again := unique_unique ended
  obtain ⟨_, rfl⟩ := unique_eq_ok.mp ended
  refine ⟨_, _, _, ended, groupBy_eq_ok.mpr ⟨present, rfl⟩, rfl, firstRows_eq_heads names t.rows,
    firstRows_eq_unmatched ordered, firstRows_sublist _ _ _, again, _, _,
    groupBy_eq_ok.mpr ⟨present, rfl⟩, rfl, fun group member => ?_⟩
  exact rows_of_mem_groups (nodup_keysOf_firstRows names t.rows) member

theorem unique_keeps_depots :
    ∃ made grouped, depots.unique ["id"] = .ok made ∧ depots.groupBy ["id"] = .ok grouped ∧
      (made.rows.map fun row => row.cell "city") =
        ["Rome", "Oslo", "Bonn"].map (fun city => some (.text city)) ∧
      (grouped.grouping.map fun grouping => grouping.groups.map Group.rows) = some [[0, 3], [1], [2]] ∧
      (made.rows = (depots.rows.zipIdx.filter fun (row, place) =>
        ∀ earlier ∈ depots.rows.take place, ¬ Row.Matches ["id"] earlier row).map Prod.fst) ∧
      made.unique ["id"] = .ok made := by
  have ordered : ∀ row ∈ depots.rows, row.Numbers Number.HasOrder := by decide
  have present : ["id"] ⊆ depots.columns := by decide
  obtain ⟨made, grouped, grouping, kept, built, _, _, unmatched, _, again, _⟩ :=
    unique_keeps_group_heads ordered present
  obtain rfl := Except.ok.inj kept
  obtain rfl := Except.ok.inj built
  exact ⟨_, _, rfl, rfl, rfl, rfl, unmatched, again⟩

end Table

end Tableflow
