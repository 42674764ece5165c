import Mathlib.Data.List.Induction
import Mathlib.Data.List.Nodup
import Mathlib.Data.List.Pairwise
import Mathlib.Data.List.Sort
import Tableflow.Table.Basic

/-!
Groupings as partitions. `build` makes one group for each key in the order in which the keys first
come, with the numbers of all rows that have the key. These groups partition the rows, and nothing
else does: a grouping is a partition by its columns exactly if it is the one that `build` makes.
-/

namespace Tableflow

/-! ### Distinct values in order -/

section

variable {κ : Type} [BEq κ]

theorem eq_of_pairwise_idxOf {keys first second : List κ}
    (ordered : first.Pairwise fun a b => keys.idxOf a < keys.idxOf b)
    (ordered' : second.Pairwise fun a b => keys.idxOf a < keys.idxOf b)
    (same : ∀ key, key ∈ first ↔ key ∈ second) : first = second := by
  have : Std.Irrefl fun a b : κ => keys.idxOf a < keys.idxOf b := ⟨fun _ => Nat.lt_irrefl _⟩
  have : Std.Antisymm fun a b : κ => keys.idxOf a < keys.idxOf b :=
    ⟨fun _ _ less more => absurd more (Nat.lt_asymm less)⟩
  exact ordered.eq_of_mem_iff ordered' same

variable [LawfulBEq κ]

theorem eraseDups_concat (keys : List κ) (key : κ) : (keys ++ [key]).eraseDups =
    if key ∈ keys then keys.eraseDups else keys.eraseDups ++ [key] := by
  rw [List.eraseDups_append, List.removeAll]
  by_cases known : key ∈ keys
  · simp [known]
  · simp [known, List.eraseDups_cons]

/-- Distinct values stand in the order of their first places. -/
theorem pairwise_idxOf_eraseDups (keys : List κ) :
    keys.eraseDups.Pairwise fun first second => keys.idxOf first < keys.idxOf second := by
  induction keys using List.reverseRecOn with
  | nil => simp
  | append_singleton keys key ih =>
    have kept : ∀ {known}, known ∈ keys.eraseDups → (keys ++ [key]).idxOf known = keys.idxOf known :=
      fun here => List.idxOf_append_of_mem (List.mem_eraseDups.mp here)
    have ordered : keys.eraseDups.Pairwise fun first second =>
        (keys ++ [key]).idxOf first < (keys ++ [key]).idxOf second :=
      ih.imp_of_mem fun here there less => by rwa [kept here, kept there]
    rw [eraseDups_concat]
    split
    · exact ordered
    · rename_i fresh
      refine List.pairwise_append.mpr ⟨ordered, List.pairwise_singleton _ _, ?_⟩
      intro first here second last
      obtain rfl := List.mem_singleton.mp last
      rw [kept here, List.idxOf_append_of_notMem fresh]
      exact Nat.lt_add_right _ (List.idxOf_lt_length_of_mem (List.mem_eraseDups.mp here))

theorem nodup_eraseDups (keys : List κ) : keys.eraseDups.Nodup := by
  refine (pairwise_idxOf_eraseDups keys).imp ?_
  rintro first _ less rfl
  exact Nat.lt_irrefl _ less

theorem head?_idxsOf {keys : List κ} {key : κ} (member : key ∈ keys) :
    (keys.idxsOf key).head? = some (keys.idxOf key) := by
  have found : 0 < (keys.idxsOf key).length := by
    rw [List.length_idxsOf]
    exact List.count_pos_iff.mpr member
  rw [List.head?_eq_getElem?, List.getElem?_eq_getElem found, List.getElem_zero_idxsOf_eq_idxOf]

theorem mem_idxsOf {keys : List κ} {key : κ} {place : Nat} :
    place ∈ keys.idxsOf key ↔ keys[place]? = some key := by
  simp [List.getElem?_eq_some_iff]

end

namespace Grouping

variable {columns : List String} {rows : List Row} {row : Row} {key : List Key} {number : Nat}

/-! ### What `build` makes -/

/-- The keys of the rows from top to bottom. -/
def keysOf (columns : List String) (rows : List Row) : List (List Key) :=
  rows.map fun row => row.key columns

/-- The group of the rows with the given key. -/
def groupOf (columns : List String) (rows : List Row) (key : List Key) : Group where
  key := ((rows[(keysOf columns rows).idxOf key]?).map fun row => row.cells columns).getD []
  rows := (keysOf columns rows).idxsOf key

theorem keysOf_concat (columns : List String) (rows : List Row) (row : Row) :
    keysOf columns (rows ++ [row]) = keysOf columns rows ++ [row.key columns] := by
  simp [keysOf]

theorem getElem?_keysOf (columns : List String) (rows : List Row) (number : Nat) :
    (keysOf columns rows)[number]? = (rows[number]?).map fun row => row.key columns :=
  List.getElem?_map

theorem groupOf_concat (row : Row) (known : key ∈ keysOf columns rows) :
    groupOf columns (rows ++ [row]) key =
      if key = row.key columns then
        { groupOf columns rows key with rows := (groupOf columns rows key).rows ++ [rows.length] }
      else groupOf columns rows key := by
  have inside : (keysOf columns rows).idxOf key < rows.length := by
    simpa [keysOf] using List.idxOf_lt_length_of_mem known
  simp only [groupOf, keysOf_concat, List.idxOf_append_of_mem known,
    List.getElem?_append_left inside, List.idxsOf_append]
  by_cases same : key = row.key columns
  · simp [same, keysOf]
  · simp [same, Ne.symm same]

theorem groupOf_concat_new (fresh : row.key columns ∉ keysOf columns rows) :
    groupOf columns (rows ++ [row]) (row.key columns) = ⟨row.cells columns, [rows.length]⟩ := by
  have absent : (keysOf columns rows).idxsOf (row.key columns) = [] :=
    List.eq_nil_iff_forall_not_mem.mpr fun _ here => fresh (List.mem_of_getElem? (mem_idxsOf.mp here))
  simp only [groupOf, keysOf_concat, List.idxOf_append_of_notMem fresh, List.idxsOf_append, absent]
  simp [keysOf]

theorem assign_of_mem {keys : List (List Key)} (distinct : keys.Nodup)
    (known : row.key columns ∈ keys) (group : List Key → Group) (index : Nat) :
    assign columns index row (keys.map fun key => (key, group key)) =
      keys.map fun key => (key, if key = row.key columns then
        { group key with rows := (group key).rows ++ [index] } else group key) := by
  induction keys with
  | nil => cases known
  | cons first rest ih =>
    obtain ⟨absent, distinct⟩ := List.nodup_cons.mp distinct
    by_cases same : first = row.key columns
    · have others : ∀ key ∈ rest, key ≠ row.key columns :=
        fun key there equal => absent (same ▸ equal ▸ there)
      simp only [List.map_cons, assign, same, if_true, List.cons.injEq, true_and]
      exact List.map_congr_left fun key there => by rw [if_neg (others key there)]
    · have later := (List.mem_cons.mp known).resolve_left (Ne.symm same)
      simp only [List.map_cons, assign, same, if_false, ih distinct later]

theorem assign_of_notMem {keys : List (List Key)} (fresh : row.key columns ∉ keys)
    (group : List Key → Group) (index : Nat) :
    assign columns index row (keys.map fun key => (key, group key)) =
      (keys.map fun key => (key, group key)) ++ [(row.key columns, ⟨row.cells columns, [index]⟩)] := by
  induction keys with
  | nil => rfl
  | cons first rest ih =>
    rw [List.mem_cons, not_or] at fresh
    simp only [List.map_cons, assign, Ne.symm fresh.1, if_false, ih fresh.2, List.cons_append]

theorem foldl_assign (columns : List String) (rows : List Row) :
    rows.zipIdx.foldl (fun groups (row, index) => assign columns index row groups) [] =
      (keysOf columns rows).eraseDups.map fun key => (key, groupOf columns rows key) := by
  induction rows using List.reverseRecOn with
  | nil => rfl
  | append_singleton rows row ih =>
    rw [List.zipIdx_append, List.foldl_append, ih, keysOf_concat, eraseDups_concat]
    simp only [List.zipIdx_singleton, List.foldl_cons, List.foldl_nil, Nat.zero_add]
    split
    · rename_i known
      rw [assign_of_mem (nodup_eraseDups _) (List.mem_eraseDups.mpr known)]
      apply List.map_congr_left
      intro key here
      rw [groupOf_concat row (List.mem_eraseDups.mp here)]
    · rename_i fresh
      rw [assign_of_notMem (fun here => fresh (List.mem_eraseDups.mp here)), List.map_append,
        List.map_singleton, groupOf_concat_new fresh]
      congr 1
      apply List.map_congr_left
      intro key here
      have known := List.mem_eraseDups.mp here
      have other : key ≠ row.key columns := fun same => fresh (same ▸ known)
      rw [groupOf_concat row known, if_neg other]

theorem groups_build (rows : List Row) (columns : List String) :
    (build rows columns).groups =
      (keysOf columns rows).eraseDups.map (groupOf columns rows) := by
  simp [build, foldl_assign]

theorem mem_groups_build {group : Group} : group ∈ (build rows columns).groups ↔
    ∃ key ∈ keysOf columns rows, groupOf columns rows key = group := by
  simp [groups_build]

theorem mem_rows_groupOf : number ∈ (groupOf columns rows key).rows ↔
    ∃ row, rows[number]? = some row ∧ row.key columns = key := by
  rw [groupOf, mem_idxsOf, getElem?_keysOf, Option.map_eq_some_iff]

/-- The first row of a group, whose cells are kept. -/
theorem first_groupOf (known : key ∈ keysOf columns rows) :
    ∃ number row, (groupOf columns rows key).rows.head? = some number ∧ rows[number]? = some row ∧
      (groupOf columns rows key).key = row.cells columns ∧
      number = (keysOf columns rows).idxOf key := by
  have inside : (keysOf columns rows).idxOf key < rows.length := by
    simpa [keysOf] using List.idxOf_lt_length_of_mem known
  have found := List.getElem?_eq_getElem inside
  exact ⟨_, _, head?_idxsOf known, found, by simp [groupOf, found], rfl⟩

/-! ### Partitions -/

/-- A grouping splits the rows by its columns: every row is in one group, with exactly the rows
that have its key, and groups stand in the order of their first rows, whose cells they keep. -/
structure Partitions (grouping : Grouping) (rows : List Row) : Prop where
  nonempty : ∀ group ∈ grouping.groups, group.rows ≠ []
  ascending : ∀ group ∈ grouping.groups, group.rows.Pairwise (· < ·)
  disjoint : grouping.groups.Pairwise fun first second => first.rows.Disjoint second.rows
  covers : ∀ number, (∃ group ∈ grouping.groups, number ∈ group.rows) ↔ number < rows.length
  ordered : grouping.groups.Pairwise fun first second =>
    ∀ i ∈ first.rows.head?, ∀ j ∈ second.rows.head?, i < j
  together : ∀ i j first second, rows[i]? = some first → rows[j]? = some second →
    ((∃ group ∈ grouping.groups, i ∈ group.rows ∧ j ∈ group.rows) ↔
      first.key grouping.columns = second.key grouping.columns)
  key : ∀ group ∈ grouping.groups, ∃ number row, group.rows.head? = some number ∧
    rows[number]? = some row ∧ group.key = row.cells grouping.columns

theorem partitions_build (rows : List Row) (columns : List String) :
    (build rows columns).Partitions rows where
  nonempty := by
    intro group member
    obtain ⟨key, known, rfl⟩ := mem_groups_build.mp member
    obtain ⟨number, _, head, _⟩ := first_groupOf known
    exact List.ne_nil_of_mem (List.mem_of_head? head)
  ascending := by
    intro group member
    obtain ⟨key, _, rfl⟩ := mem_groups_build.mp member
    exact List.pairwise_idxsOf
  disjoint := by
    rw [groups_build, List.pairwise_map]
    refine (nodup_eraseDups _).imp ?_
    intro first second apart number here there
    obtain ⟨row, found, key⟩ := mem_rows_groupOf.mp here
    obtain ⟨row', found', key'⟩ := mem_rows_groupOf.mp there
    obtain rfl := Option.some.inj (found.symm.trans found')
    exact apart (key.symm.trans key')
  covers := by
    intro number
    constructor
    · rintro ⟨group, member, here⟩
      obtain ⟨key, _, rfl⟩ := mem_groups_build.mp member
      obtain ⟨row, found, _⟩ := mem_rows_groupOf.mp here
      exact (List.getElem?_eq_some_iff.mp found).1
    · intro inside
      have known : rows[number].key columns ∈ keysOf columns rows :=
        List.mem_map_of_mem (List.getElem_mem inside)
      exact ⟨_, mem_groups_build.mpr ⟨_, known, rfl⟩,
        mem_rows_groupOf.mpr ⟨_, List.getElem?_eq_getElem inside, rfl⟩⟩
  ordered := by
    rw [groups_build, List.pairwise_map]
    refine (pairwise_idxOf_eraseDups _).imp_of_mem ?_
    intro first second here there less i head j head'
    obtain ⟨_, _, found, _, _, rfl⟩ := first_groupOf (List.mem_eraseDups.mp here)
    obtain ⟨_, _, found', _, _, rfl⟩ := first_groupOf (List.mem_eraseDups.mp there)
    obtain rfl := Option.some.inj (found.symm.trans head)
    obtain rfl := Option.some.inj (found'.symm.trans head')
    exact less
  together := by
    intro i j first second found found'
    constructor
    · rintro ⟨group, member, here, there⟩
      obtain ⟨key, _, rfl⟩ := mem_groups_build.mp member
      simp only [mem_rows_groupOf, found, found', Option.some.injEq, exists_eq_left'] at here there
      exact here.trans there.symm
    · intro same
      have known : first.key columns ∈ keysOf columns rows :=
        List.mem_map_of_mem (List.mem_of_getElem? found)
      exact ⟨_, mem_groups_build.mpr ⟨_, known, rfl⟩, mem_rows_groupOf.mpr ⟨_, found, rfl⟩,
        mem_rows_groupOf.mpr ⟨_, found', same.symm⟩⟩
  key := by
    intro group member
    obtain ⟨key, known, rfl⟩ := mem_groups_build.mp member
    obtain ⟨number, row, head, found, kept, _⟩ := first_groupOf known
    exact ⟨number, row, head, found, kept⟩

/-! ### Only one partition -/

namespace Partitions

variable {grouping : Grouping} {group : Group}

/-- A group holds all rows that have the key of one of them. -/
theorem mem_rows (partition : grouping.Partitions rows) (member : group ∈ grouping.groups)
    {first : Nat} (here : first ∈ group.rows) (found : rows[first]? = some row) :
    number ∈ group.rows ↔
      ∃ other, rows[number]? = some other ∧ other.key grouping.columns = row.key grouping.columns := by
  constructor
  · intro there
    have inside := (partition.covers number).mp ⟨group, member, there⟩
    have found' := List.getElem?_eq_getElem inside
    exact ⟨_, found', (partition.together _ _ _ _ found' found).mp ⟨group, member, there, here⟩⟩
  · rintro ⟨other, found', same⟩
    obtain ⟨group', member', there, here'⟩ := (partition.together _ _ _ _ found' found).mpr same
    -- the two groups share the row `first`
    have : Std.Symm fun first second : Group => first.rows.Disjoint second.rows :=
      ⟨fun _ _ apart _ here there => apart there here⟩
    have equal : group' = group := by
      by_contra differ
      exact partition.disjoint.forall member' member differ here' here
    exact equal ▸ there

theorem eq_groupOf (partition : grouping.Partitions rows) (member : group ∈ grouping.groups) :
    group.key.map Cell.key ∈ keysOf grouping.columns rows ∧
      groupOf grouping.columns rows (group.key.map Cell.key) = group := by
  obtain ⟨first, row, head, found, kept⟩ := partition.key group member
  have shared : group.key.map Cell.key = row.key grouping.columns := by
    rw [kept]
    rfl
  have known : row.key grouping.columns ∈ keysOf grouping.columns rows :=
    List.mem_map_of_mem (List.mem_of_getElem? found)
  have numbers : (groupOf grouping.columns rows (row.key grouping.columns)).rows = group.rows := by
    refine List.Pairwise.eq_of_mem_iff List.pairwise_idxsOf (partition.ascending group member) ?_
    intro number
    rw [partition.mem_rows member (List.mem_of_head? head) found]
    exact mem_rows_groupOf
  obtain ⟨first', row', head', found', kept', _⟩ := first_groupOf known
  rw [numbers] at head'
  obtain rfl := Option.some.inj (head.symm.trans head')
  obtain rfl := Option.some.inj (found.symm.trans found')
  rw [shared]
  refine ⟨known, ?_⟩
  calc groupOf grouping.columns rows (row.key grouping.columns)
      = ⟨(groupOf grouping.columns rows (row.key grouping.columns)).key, group.rows⟩ := by
        rw [← numbers]
    _ = ⟨group.key, group.rows⟩ := by rw [kept', kept]

/-- The keys of the groups are the keys of the rows as they first come. -/
theorem keys_eq (partition : grouping.Partitions rows) :
    (grouping.groups.map fun group => group.key.map Cell.key) =
      (keysOf grouping.columns rows).eraseDups := by
  refine eq_of_pairwise_idxOf ?_ (pairwise_idxOf_eraseDups _) ?_
  · rw [List.pairwise_map]
    refine partition.ordered.imp_of_mem ?_
    intro first second member member' less
    obtain ⟨known, same⟩ := partition.eq_groupOf member
    obtain ⟨known', same'⟩ := partition.eq_groupOf member'
    obtain ⟨_, _, head, _, _, rfl⟩ := first_groupOf known
    obtain ⟨_, _, head', _, _, rfl⟩ := first_groupOf known'
    rw [same] at head
    rw [same'] at head'
    exact less _ head _ head'
  · intro key
    rw [List.mem_eraseDups, List.mem_map]
    constructor
    · rintro ⟨group, member, rfl⟩
      exact (partition.eq_groupOf member).1
    · intro known
      obtain ⟨row, member, rfl⟩ := List.mem_map.mp known
      obtain ⟨number, found⟩ := List.mem_iff_getElem?.mp member
      obtain ⟨group, here, inside⟩ :=
        (partition.covers number).mpr (List.getElem?_eq_some_iff.mp found).1
      rw [← (partition.eq_groupOf here).2, mem_rows_groupOf, found] at inside
      obtain ⟨_, equal, same⟩ := inside
      obtain rfl := Option.some.inj equal
      exact ⟨group, here, same.symm⟩

theorem eq_build (partition : grouping.Partitions rows) :
    grouping = build rows grouping.columns := by
  have groups : grouping.groups = (build rows grouping.columns).groups := by
    rw [groups_build, ← partition.keys_eq, List.map_map]
    have same := List.map_congr_left fun group member => (partition.eq_groupOf member).2
    exact (same.trans (List.map_id _)).symm
  calc grouping = ⟨grouping.columns, grouping.groups⟩ := rfl
    _ = build rows grouping.columns := by rw [groups]; rfl

end Partitions

theorem partitions_iff {grouping : Grouping} :
    grouping.Partitions rows ↔ grouping = build rows grouping.columns :=
  ⟨Partitions.eq_build, fun same => same ▸ partitions_build rows grouping.columns⟩

end Grouping

end Tableflow
