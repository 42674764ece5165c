import Tableflow.Proofs.Comparison
import Tableflow.Proofs.Export

/-!
Sorting by several columns. The rows come in lexicographic order, rows that tie keep their order,
and there is only one way to arrange the rows so.
-/

namespace Tableflow

open Std (TransCmp OrientedCmp ReflCmp)

/-! ### Insertion sort by a total preorder -/

section

variable {α : Type} {cmp : α → α → Ordering} {item : α} {items sorted : List α}

theorem ordered_insertBehind [TransCmp cmp]
    (ordered : sorted.Pairwise fun later earlier => (cmp earlier later).isLE) :
    (insertBehind (fun a b => (cmp a b).isLT) item sorted).Pairwise
      fun later earlier => (cmp earlier later).isLE := by
  fun_induction insertBehind (fun a b => (cmp a b).isLT) item sorted with
  | case1 => exact List.pairwise_singleton _ _
  | case2 last rest before ih =>
    obtain ⟨above, ordered⟩ := List.pairwise_cons.mp ordered
    refine List.pairwise_cons.mpr ⟨fun other member => ?_, ih ordered⟩
    rcases List.mem_cons.mp ((insertBehind_perm _ _ _).mem_iff.mp member) with rfl | member
    · exact Ordering.isLE_of_eq_lt (Ordering.isLT_iff_eq_lt.mp before)
    · exact above other member
  | case3 last rest behind =>
    have below : (cmp last item).isLE := by
      rw [@OrientedCmp.eq_swap _ cmp, Ordering.isLE_swap, Ordering.isGE_iff_ne_lt]
      exact mt Ordering.isLT_iff_eq_lt.mpr behind
    refine List.pairwise_cons.mpr ⟨fun other member => ?_, ordered⟩
    rcases List.mem_cons.mp member with rfl | member
    · exact below
    · exact TransCmp.isLE_trans ((List.pairwise_cons.mp ordered).1 other member) below

/-- Only items that the new one comes strictly before are passed, and those tie with other items. -/
theorem filter_insertBehind [TransCmp cmp] (a : α) :
    (insertBehind (fun a b => (cmp a b).isLT) item sorted).filter (fun b => cmp a b = .eq) =
      (item :: sorted).filter fun b => cmp a b = .eq := by
  fun_induction insertBehind (fun a b => (cmp a b).isLT) item sorted with
  | case1 => rfl
  | case2 last rest before ih =>
    rw [List.filter_cons, ih, List.filter_cons, List.filter_cons, List.filter_cons]
    by_cases tied : cmp a last = .eq
    · have apart : cmp a item ≠ .eq := fun same => by
        have : cmp item last = .eq := TransCmp.eq_trans (OrientedCmp.eq_symm same) tied
        rw [this] at before
        cases before
      simp [tied, apart]
    · simp [tied]
  | case3 => rfl

theorem ordered_stableSort [TransCmp cmp] (items : List α) :
    (stableSort (fun a b => (cmp a b).isLT) items).Pairwise fun a b => (cmp a b).isLE := by
  have folded (sorted : List α) (ordered : sorted.Pairwise fun later earlier => (cmp earlier later).isLE) :
      (items.foldl (fun sorted item => insertBehind (fun a b => (cmp a b).isLT) item sorted) sorted).Pairwise
        fun later earlier => (cmp earlier later).isLE := by
    induction items generalizing sorted with
    | nil => exact ordered
    | cons item rest ih => exact ih _ (ordered_insertBehind ordered)
  exact List.pairwise_reverse.mpr (folded [] .nil)

theorem filter_stableSort [TransCmp cmp] (items : List α) (a : α) :
    (stableSort (fun a b => (cmp a b).isLT) items).filter (fun b => cmp a b = .eq) =
      items.filter fun b => cmp a b = .eq := by
  have folded (sorted : List α) :
      (items.foldl (fun sorted item => insertBehind (fun a b => (cmp a b).isLT) item sorted) sorted).filter
        (fun b => cmp a b = .eq) = (items.reverse ++ sorted).filter fun b => cmp a b = .eq := by
    induction items generalizing sorted with
    | nil => rfl
    | cons item rest ih =>
      rw [List.foldl_cons, ih, List.filter_append, filter_insertBehind, ← List.filter_append,
        List.reverse_cons, List.append_assoc, List.singleton_append]
  rw [stableSort, List.filter_reverse, folded, List.append_nil, List.filter_reverse, List.reverse_reverse]

theorem mem_iff_of_stable [ReflCmp cmp] {xs ys : List α}
    (stable : ∀ a, xs.filter (fun b => cmp a b = .eq) = ys.filter fun b => cmp a b = .eq) (a : α) :
    a ∈ xs ↔ a ∈ ys := by
  have mem (zs : List α) : a ∈ zs ↔ a ∈ zs.filter fun b => cmp a b = .eq := by
    simp [ReflCmp.compare_self]
  rw [mem xs, stable, ← mem ys]

theorem isLE_head [ReflCmp cmp] {a b : α} {xs : List α}
    (ordered : (a :: xs).Pairwise fun a b => (cmp a b).isLE) (member : b ∈ a :: xs) :
    (cmp a b).isLE := by
  rcases List.mem_cons.mp member with rfl | member
  · exact ReflCmp.isLE_rfl
  · exact (List.pairwise_cons.mp ordered).1 b member

/-- The order and the sequences of tied items leave no choice. -/
theorem eq_of_ordered_of_stable [TransCmp cmp] {xs ys : List α}
    (ordered : xs.Pairwise fun a b => (cmp a b).isLE) (ordered' : ys.Pairwise fun a b => (cmp a b).isLE)
    (stable : ∀ a, xs.filter (fun b => cmp a b = .eq) = ys.filter fun b => cmp a b = .eq) : xs = ys := by
  have mem_iff := mem_iff_of_stable stable
  induction xs generalizing ys with
  | nil => exact (List.eq_nil_iff_forall_not_mem.mpr fun b member => nomatch (mem_iff b).mpr member).symm
  | cons a xs ih =>
    cases ys with
    | nil => cases (mem_iff a).mp List.mem_cons_self
    | cons b ys =>
      -- each head stands in the other list, so neither comes strictly before the other
      have tied : cmp a b = .eq :=
        OrientedCmp.isLE_antisymm (isLE_head ordered ((mem_iff b).mpr List.mem_cons_self))
          (isLE_head ordered' ((mem_iff a).mp List.mem_cons_self))
      obtain rfl : a = b := by
        have heads := congrArg List.head? (stable a)
        simpa [List.filter_cons, tied, ReflCmp.compare_self] using heads
      have rest : ∀ c, xs.filter (fun b => cmp c b = .eq) = ys.filter fun b => cmp c b = .eq := by
        intro c
        have both := stable c
        rw [List.filter_cons, List.filter_cons] at both
        split at both
        · exact (List.cons.inj both).2
        · exact both
      rw [ih (List.pairwise_cons.mp ordered).2 (List.pairwise_cons.mp ordered').2 rest
        (mem_iff_of_stable rest)]

end

/-! ### Rows -/

namespace Row

variable {names : List String} {a b : Row} {rows sorted : List Row} {descending : Bool}

/-- No column of the list tells the rows apart. -/
def Ties (names : List String) (a b : Row) : Prop :=
  ∀ name ∈ names, Cell.compare (a.cell name) (b.cell name) = .eq

instance : Decidable (Ties names a b) :=
  inferInstanceAs (Decidable (∀ name ∈ names, Cell.compare (a.cell name) (b.cell name) = .eq))

/-- The first column that tells the rows apart has a smaller cell in the first row. -/
def Precedes (names : List String) (a b : Row) : Prop :=
  ∃ before name after, names = before ++ name :: after ∧ Ties before a b ∧
    Cell.compare (a.cell name) (b.cell name) = .lt

theorem compareCells_eq_iff :
    Table.compareCells (a.cells names) (b.cells names) = .eq ↔ Ties names a b := by
  induction names with
  | nil => simp [Row.cells, Table.compareCells, Ties]
  | cons name rest ih =>
    show (Cell.compare _ _).then (Table.compareCells (a.cells rest) (b.cells rest)) = .eq ↔ _
    rw [Ordering.then_eq_eq, ih, Ties, Ties, List.forall_mem_cons]

theorem compareCells_lt_iff :
    Table.compareCells (a.cells names) (b.cells names) = .lt ↔ Precedes names a b := by
  induction names with
  | nil => simp [Row.cells, Table.compareCells, Precedes]
  | cons name rest ih =>
    show (Cell.compare _ _).then (Table.compareCells (a.cells rest) (b.cells rest)) = .lt ↔ _
    rw [Ordering.then_eq_lt, ih]
    constructor
    · rintro (less | ⟨tied, before, other, after, rfl, ties, less⟩)
      · exact ⟨[], name, rest, rfl, List.forall_mem_nil _, less⟩
      · exact ⟨name :: before, other, after, rfl, List.forall_mem_cons.mpr ⟨tied, ties⟩, less⟩
    · rintro ⟨before, other, after, split, ties, less⟩
      rcases List.cons_eq_append_iff.mp split with ⟨rfl, same⟩ | ⟨before, rfl, rfl⟩
      · obtain ⟨rfl, -⟩ := List.cons.inj same
        exact .inl less
      · obtain ⟨tied, ties⟩ := List.forall_mem_cons.mp ties
        exact .inr ⟨tied, before, other, after, rfl, ties, less⟩

/-- The rows in lexicographic order by the columns, downwards if `descending`, where rows that tie
stand as before. -/
structure SortedBy (names : List String) (descending : Bool) (rows sorted : List Row) : Prop where
  perm : sorted.Perm rows
  ordered : sorted.Pairwise fun earlier later =>
    if descending then ¬ Precedes names earlier later else ¬ Precedes names later earlier
  stable : ∀ row ∈ rows, sorted.filter (fun other => Ties names row other) =
    rows.filter fun other => Ties names row other

theorem compareBy_eq_iff : compareBy names descending a b = .eq ↔ Ties names a b := by
  rw [← compareCells_eq_iff]
  cases descending with
  | false => rfl
  | true => exact Ordering.swap_eq_eq

/-- The order of the rows of a list, in which alone it need be total. -/
def compareAmong (rows : List Row) (names : List String) (descending : Bool)
    (a b : { row // row ∈ rows }) : Ordering := compareBy names descending a b

theorem filter_ties (items : List { row // row ∈ rows }) (a : { row // row ∈ rows }) :
    (items.map Subtype.val).filter (fun other => Ties names a other) =
      (items.filter fun b => compareAmong rows names descending a b = .eq).map Subtype.val := by
  rw [List.filter_map]
  simp only [compareAmong, compareBy_eq_iff, Function.comp_def]

section

variable (ordered : ∀ name ∈ names, ∀ row ∈ rows, (row.cell name).Numbers Number.HasOrder)
  (alike : ∀ name ∈ names, ∀ a ∈ rows, ∀ b ∈ rows, Cell.SameKind (a.cell name) (b.cell name))

include ordered alike

theorem transCmp_compareAmong : TransCmp (compareAmong rows names descending) :=
  transCmp_compareBy descending ordered alike

theorem isLE_compareAmong_iff (a b : { row // row ∈ rows }) :
    (compareAmong rows names descending a b).isLE ↔
      if descending then ¬ Precedes names a b else ¬ Precedes names b a := by
  cases descending with
  | false =>
    have turned := (transCmp_cells ordered alike).eq_swap (a := a) (b := b)
    show (Table.compareCells _ _).isLE ↔ ¬ Precedes names b a
    rw [← compareCells_lt_iff, turned, Ordering.isLE_swap, Ordering.isGE_iff_ne_lt]
  | true =>
    show (Table.compareCells _ _).swap.isLE ↔ ¬ Precedes names a b
    rw [← compareCells_lt_iff, Ordering.isLE_swap, Ordering.isGE_iff_ne_lt]

theorem sortedBy_stableSort : SortedBy names descending rows
    (stableSort (fun a b => (compareBy names descending a b).isLT) rows) := by
  have : TransCmp (compareAmong rows names descending) := transCmp_compareAmong ordered alike
  have lifted : stableSort (fun a b => (compareBy names descending a b).isLT) rows =
      (stableSort (fun a b => (compareAmong rows names descending a b).isLT) rows.attach).map
        Subtype.val := by
    have mapped := stableSort_map Subtype.val (fun a b => (compareBy names descending a b).isLT) rows.attach
    rwa [List.attach_map_subtype_val] at mapped
  refine ⟨stableSort_perm _ rows, ?_, fun row member => ?_⟩
  · rw [lifted, List.pairwise_map]
    exact (ordered_stableSort rows.attach).imp (isLE_compareAmong_iff ordered alike _ _).mp
  · have kept := @filter_stableSort _ (compareAmong rows names descending) _ rows.attach ⟨row, member⟩
    have tied := congrArg (List.map Subtype.val) kept
    rw [← filter_ties, ← filter_ties, List.attach_map_subtype_val] at tied
    rw [lifted]
    exact tied

/-- The rows can be sorted in one way only. -/
theorem SortedBy.eq {other : List Row} (first : SortedBy names descending rows sorted)
    (second : SortedBy names descending rows other) : sorted = other := by
  have : TransCmp (compareAmong rows names descending) := transCmp_compareAmong ordered alike
  have lift {xs : List Row} (sortedBy : SortedBy names descending rows xs) :
      ∃ items : List { row // row ∈ rows }, items.map Subtype.val = xs ∧
        items.Pairwise fun a b => (compareAmong rows names descending a b).isLE := by
    have within : ∀ row ∈ xs, row ∈ rows := fun row => sortedBy.perm.mem_iff.mp
    refine ⟨xs.attachWith _ within, List.attachWith_map_subtype_val _, ?_⟩
    have sorted := sortedBy.ordered
    rw [← List.attachWith_map_subtype_val within, List.pairwise_map] at sorted
    exact sorted.imp (isLE_compareAmong_iff ordered alike _ _).mpr
  obtain ⟨xs, rfl, sorted⟩ := lift first
  obtain ⟨ys, rfl, sorted'⟩ := lift second
  rw [eq_of_ordered_of_stable sorted sorted']
  intro row
  apply List.map_injective_iff.mpr Subtype.val_injective
  rw [← filter_ties, ← filter_ties, first.stable row row.2, second.stable row row.2]

end

theorem SortedBy.again (sortedBy : SortedBy names descending rows sorted) :
    SortedBy names descending sorted sorted :=
  ⟨.refl sorted, sortedBy.ordered, fun _ _ => rfl⟩

end Row

/-! ### Tables -/

namespace Table

variable {t made : Table} {names : List String} {descending : Bool}

theorem oddKind?_of_sameKind {cells : List Cell} (alike : ∀ a ∈ cells, ∀ b ∈ cells, a.SameKind b) :
    oddKind? cells = none := by
  unfold oddKind?
  split
  · rfl
  · rename_i first rest values
    have present {v : Value} (member : v ∈ first :: rest) : some v ∈ cells := by
      rw [← values, List.mem_filterMap] at member
      obtain ⟨_, here, rfl⟩ := member
      exact here
    rw [Option.map_eq_none_iff, List.find?_eq_none]
    intro v member
    simpa using alike _ (present (List.mem_cons_of_mem _ member)) _ (present List.mem_cons_self) v rfl _ rfl

/-- All values under the column are of one kind. -/
def OneKind (t : Table) (name : String) : Prop :=
  ∀ a ∈ t.rows, ∀ b ∈ t.rows, Cell.SameKind (a.cell name) (b.cell name)

theorem requireSortable_of_oneKind (complete : t.Complete) {name : String} (present : name ∈ t.columns)
    (alike : t.OneKind name) : t.requireSortable name = .ok () := by
  obtain ⟨cells, found⟩ : ∃ cells, t.column name = .ok cells := ⟨_, column_eq_ok.mpr ⟨present, rfl⟩⟩
  have uniform : oddKind? cells = none := by
    apply oddKind?_of_sameKind
    rw [column_eq_map complete found]
    simpa [OneKind] using alike
  refine bind_eq_ok.mpr ⟨cells, mapError_eq_ok.mpr found, ?_⟩
  rw [uniform]

theorem requireSortable_of_sort (ended : t.sort names descending = .ok made) :
    ∀ name ∈ names, t.requireSortable name = .ok () := by
  simp only [sort, guarded_eq_ok] at ended
  exact forM_eq_ok.mp ended.2.1

/-- A complete table can be sorted by columns that it has, if each has one kind of values. -/
theorem sort_eq_ok (complete : t.Complete) : t.sort names descending = .ok made ↔
    names ⊆ t.columns ∧ (∀ name ∈ names, t.OneKind name) ∧
      ofParts t.columns (stableSort (fun a b => (Row.compareBy names descending a b).isLT) t.rows)
        t.groupColumns = made := by
  constructor
  · intro ended
    have present := (perm_of_sort ended).1
    have sortable := requireSortable_of_sort ended
    refine ⟨present, fun name listed => sameKind_of_requireSortable complete (sortable name listed), ?_⟩
    rw [sort_eq complete descending present sortable] at ended
    exact Except.ok.inj ended
  · rintro ⟨present, alike, rfl⟩
    exact sort_eq complete descending present fun name listed =>
      requireSortable_of_oneKind complete (present listed) (alike name listed)

theorem sort_fails_iff (complete : t.Complete) : (∃ e, t.sort names descending = .error e) ↔
    (∃ name ∈ names, name ∉ t.columns) ∨ ∃ name ∈ names, ¬ t.OneKind name := by
  constructor
  · rintro ⟨e, failed⟩
    by_contra fine
    simp only [not_or, not_exists, not_and, not_not] at fine
    obtain ⟨made, ended⟩ : ∃ made, t.sort names descending = .ok made :=
      ⟨_, (sort_eq_ok complete).mpr ⟨fine.1, fine.2, rfl⟩⟩
    cases failed.symm.trans ended
  · intro broken
    cases ended : t.sort names descending with
    | error e => exact ⟨e, rfl⟩
    | ok made =>
      obtain ⟨present, alike, -⟩ := (sort_eq_ok complete).mp ended
      rcases broken with ⟨name, listed, absent⟩ | ⟨name, listed, mixed⟩
      · exact absurd (present listed) absent
      · exact absurd (alike name listed) mixed

theorem not_oneKind_iff {name : String} : ¬ t.OneKind name ↔
    ∃ a ∈ t.rows, ∃ b ∈ t.rows, ∃ v w, a.cell name = some v ∧ b.cell name = some w ∧
      v.kind ≠ w.kind := by
  simp only [OneKind, Cell.SameKind, Option.mem_def, not_forall]
  constructor
  · rintro ⟨a, here, b, there, v, first, w, second, apart⟩
    exact ⟨a, here, b, there, v, w, first, second, apart⟩
  · rintro ⟨a, here, b, there, v, w, first, second, apart⟩
    exact ⟨a, here, b, there, v, first, w, second, apart⟩

/-- Sorting a table whose rows are keyed by its columns, without not-a-number, fails exactly if a
column is absent or holds values of two kinds. Otherwise only the rows change: they come in
lexicographic order by the columns, with ties as before. There is one such arrangement, so sorting
again changes nothing. -/
theorem sort_arranges_rows (keyed : t.Keyed Eq) (ordered : ∀ row ∈ t.rows, row.Numbers Number.HasOrder)
    (names : List String) (descending : Bool) :
    ((∃ e, t.sort names descending = .error e) ↔
      (∃ name ∈ names, name ∉ t.columns) ∨
      ∃ name ∈ names, ∃ a ∈ t.rows, ∃ b ∈ t.rows, ∃ v w, a.cell name = some v ∧ b.cell name = some w ∧
        v.kind ≠ w.kind) ∧
    ∀ made, t.sort names descending = .ok made →
      made.columns = t.columns ∧ made.groupColumns = t.groupColumns ∧
      Row.SortedBy names descending t.rows made.rows ∧
      (∀ rows, Row.SortedBy names descending t.rows rows → rows = made.rows) ∧
      made.sort names descending = .ok made := by
  have complete := keyed.complete
  refine ⟨by simp only [sort_fails_iff complete, not_oneKind_iff], fun made ended => ?_⟩
  obtain ⟨present, alike, rfl⟩ := (sort_eq_ok complete).mp ended
  have cells : ∀ name ∈ names, ∀ row ∈ t.rows, (row.cell name).Numbers Number.HasOrder :=
    fun name _ row member => (ordered row member).cell name
  have sortedBy : Row.SortedBy names descending t.rows _ := Row.sortedBy_stableSort cells alike
  refine ⟨rfl, groupColumns_ofParts _ _ _, sortedBy, fun rows other => other.eq cells alike sortedBy, ?_⟩
  -- the sorted rows are one way to sort them, so they are the only one
  have within := sortedBy.perm.subset
  have cells' := fun name listed row member => cells name listed row (within member)
  have alike' := fun name listed a here b there => alike name listed a (within here) b (within there)
  refine (sort_eq_ok (keyed.of_subset within).complete).mpr ⟨present, alike', ?_⟩
  rw [groupColumns_ofParts]
  exact congrArg (fun rows => ofParts t.columns rows t.groupColumns)
    ((Row.sortedBy_stableSort cells' alike').eq cells' alike' sortedBy.again)

def standing (player team : String) (points : Cell) : Row :=
  .ofList [("player", some (.text player)), ("team", some (.text team)), ("points", points)]

def standings : Table :=
  ⟨["player", "team", "points"],
    [standing "Ada" "red" (some (.number 2)), standing "Ben" "blue" none,
      standing "Cy" "red" (some (.number 2)), standing "Dee" "blue" (some (.number 1))], none⟩

theorem sort_arranges_standings :
    ∃ made, standings.sort ["team", "points"] true = .ok made ∧
      (made.rows.map fun row => row.cell "player") =
        ["Ada", "Cy", "Dee", "Ben"].map (fun player => some (.text player)) ∧
      Row.SortedBy ["team", "points"] true standings.rows made.rows ∧
      made.sort ["team", "points"] true = .ok made ∧
      ∃ e, standings.sort ["team", "score"] true = .error e := by
  have keyed : standings.Keyed Eq := by
    unfold standings
    simp only [Keyed, List.forall_mem_cons]
    exact ⟨rfl, rfl, rfl, rfl, nofun⟩
  have ordered : ∀ row ∈ standings.rows, row.Numbers Number.HasOrder := by decide
  obtain ⟨_, sorted⟩ := sort_arranges_rows keyed ordered ["team", "points"] true
  obtain ⟨failed, _⟩ := sort_arranges_rows keyed ordered ["team", "score"] true
  obtain ⟨_, _, sortedBy, _, again⟩ := sorted _ rfl
  exact ⟨_, rfl, rfl, sortedBy, again, failed.mpr (.inl ⟨"score", by decide, by decide⟩)⟩

end Table

end Tableflow
