import Tableflow.Proofs.Export
import Tableflow.Proofs.Footprint

/-!
Two filters in a row are one filter by a conjunction. The second filter meets the rows that the first
one keeps, under new numbers; the conjunction evaluates its right side in the same rows only, because
it stops at a left side that is not truthy.
-/

namespace Tableflow

/-! ### Expressions -/

namespace Expr

variable {e left right : Expr} {row : Row} {index : Nat} {cell : Cell}

/-- The expression does not ask for the number of its row. -/
def Unnumbered : Expr → Prop
  | constant _ => True
  | column _ => True
  | rowIndex => False
  | unary _ arg => arg.Unnumbered
  | binary _ left right => left.Unnumbered ∧ right.Unnumbered
  | ifElse condition yes no => condition.Unnumbered ∧ yes.Unnumbered ∧ no.Unnumbered

theorem Unnumbered.eval_eq (free : e.Unnumbered) (row : Row) (index other : Nat) :
    e.eval row index = e.eval row other := by
  induction e with
  | constant cell => rfl
  | column name => rfl
  | rowIndex => cases free
  | unary op arg ih => rw [eval, eval, ih free]
  | binary op left right ihLeft ihRight =>
    have first := ihLeft free.1
    have second := ihRight free.2
    cases op <;> simp only [eval, first, second]
  | ifElse condition yes no ihCondition ihYes ihNo =>
    obtain ⟨freeCondition, freeYes, freeNo⟩ := free
    simp only [eval, ihCondition freeCondition, ihYes freeYes, ihNo freeNo]

theorem eval_and_of_truthy (found : left.eval row index = .ok cell) (truthy : cell.isTruthy = true) :
    (binary .and left right).eval row index = right.eval row index := by
  rw [eval, found]
  show (if cell.isTruthy then right.eval row index else _) = _
  rw [if_pos truthy]

theorem eval_and_of_falsy (found : left.eval row index = .ok cell) (falsy : cell.isTruthy = false) :
    (binary .and left right).eval row index = .ok cell := by
  rw [eval, found]
  show (if cell.isTruthy then right.eval row index else _) = _
  rw [if_neg (ne_true_of_eq_false falsy)]
  rfl

theorem exists_eval_and : (∃ cell, (binary .and left right).eval row index = .ok cell) ↔
    ∃ cell, left.eval row index = .ok cell ∧
      (cell.isTruthy = true → ∃ cell, right.eval row index = .ok cell) := by
  constructor
  · rintro ⟨cell, evaluated⟩
    obtain ⟨first, found, _⟩ := bind_eq_ok.mp evaluated
    refine ⟨first, found, fun truthy => ⟨cell, ?_⟩⟩
    rw [← evaluated, eval_and_of_truthy found truthy]
  · rintro ⟨first, found, right⟩
    cases truth : first.isTruthy with
    | true =>
      rw [eval_and_of_truthy found truth]
      exact right truth
    | false => exact ⟨first, eval_and_of_falsy found truth⟩

theorem columns_binary_subset {op : BinaryOp} {names : List String} :
    (binary op left right).columns ⊆ names ↔ left.columns ⊆ names ∧ right.columns ⊆ names := by
  have split (e : Expr) : e.columns ⊆ names ↔ e.references ⊆ names :=
    forall_congr' fun _ => imp_congr_left mem_columns
  rw [split, split, split, references, List.append_subset]

end Expr

/-! ### Rows -/

/-- Every row has a value, where the first row is number `index`, and the rows with truthy values are
kept. -/
def Sifts (e : Expr) (index : Nat) : List Row → List Row → Prop
  | [], kept => kept = []
  | row :: rest, kept => ∃ cell later, e.eval row index = .ok cell ∧ Sifts e (index + 1) rest later ∧
      kept = if cell.isTruthy then row :: later else later

namespace Sifts

variable {e first second : Expr} {index : Nat} {rows kept : List Row}

theorem iff_evalFrom : Sifts e index rows kept ↔ ∃ cells, Table.evalFrom e index rows = .ok cells ∧
    ((rows.zip cells).filter fun (_, cell) => cell.isTruthy).map Prod.fst = kept := by
  induction rows generalizing index kept with
  | nil =>
    constructor
    · rintro rfl
      exact ⟨[], rfl, rfl⟩
    · rintro ⟨_, _, rfl⟩
      rfl
  | cons row rest ih =>
    constructor
    · rintro ⟨cell, _, found, onward, rfl⟩
      obtain ⟨cells, evaluated, rfl⟩ := ih.mp onward
      refine ⟨cell :: cells, bind_eq_ok.mpr ⟨cell, found, bind_eq_ok.mpr ⟨cells, evaluated, rfl⟩⟩, ?_⟩
      cases truth : cell.isTruthy <;> simp [truth]
    · rintro ⟨_, evaluated, rfl⟩
      obtain ⟨cell, found, evaluated⟩ := bind_eq_ok.mp evaluated
      obtain ⟨cells, onward, made⟩ := bind_eq_ok.mp evaluated
      obtain rfl := pure_eq_ok.mp made
      refine ⟨cell, _, found, ih.mpr ⟨cells, onward, rfl⟩, ?_⟩
      cases truth : cell.isTruthy <;> simp [truth]

theorem exists_iff : (∃ kept, Sifts e index rows kept) ↔
    ∀ place row, rows[place]? = some row → ∃ cell, e.eval row (index + place) = .ok cell := by
  induction rows generalizing index with
  | nil => exact ⟨fun _ => nofun, fun _ => ⟨[], rfl⟩⟩
  | cons row rest ih =>
    constructor
    · rintro ⟨_, cell, later, found, onward, _⟩ place other there
      cases place with
      | zero =>
        obtain rfl := Option.some.inj there
        exact ⟨cell, found⟩
      | succ place =>
        rw [← Nat.succ_add_eq_add_succ]
        exact ih.mp ⟨later, onward⟩ place other there
    · intro each
      obtain ⟨cell, found⟩ := each 0 row rfl
      obtain ⟨later, onward⟩ := ih.mpr fun place other there => by
        rw [Nat.succ_add_eq_add_succ]
        exact each (place + 1) other there
      exact ⟨_, cell, later, found, onward, rfl⟩

/-- A conjunction sifts as its sides do one after the other, whatever numbers the second side gives
to the rows that the first one keeps. -/
theorem and_iff (free : second.Unnumbered) (other : Nat) :
    Sifts (.binary .and first second) index rows kept ↔
      ∃ middle, Sifts first index rows middle ∧ Sifts second other middle kept := by
  induction rows generalizing index other kept with
  | nil =>
    constructor
    · rintro rfl
      exact ⟨[], rfl, rfl⟩
    · rintro ⟨_, rfl, rfl⟩
      rfl
  | cons row rest ih =>
    constructor
    · rintro ⟨cell, later, found, onward, rfl⟩
      obtain ⟨left, foundLeft, _⟩ := Expr.exists_eval_and.mp ⟨cell, found⟩
      cases truth : left.isTruthy with
      | true =>
        rw [Expr.eval_and_of_truthy foundLeft truth, free.eval_eq row index other] at found
        obtain ⟨middle, sifted, again⟩ := (ih (other + 1)).mp onward
        exact ⟨row :: middle, ⟨left, middle, foundLeft, sifted, by rw [if_pos truth]⟩,
          cell, later, found, again, rfl⟩
      | false =>
        obtain rfl := Except.ok.inj ((Expr.eval_and_of_falsy foundLeft truth).symm.trans found)
        obtain ⟨middle, sifted, again⟩ := (ih other).mp onward
        refine ⟨middle, ⟨left, middle, foundLeft, sifted, ?_⟩, ?_⟩
        · rw [truth, if_neg Bool.false_ne_true]
        · rwa [truth, if_neg Bool.false_ne_true]
    · rintro ⟨_, ⟨left, middle, found, sifted, rfl⟩, again⟩
      cases truth : left.isTruthy with
      | true =>
        rw [truth, if_pos rfl] at again
        obtain ⟨cell, later, foundRight, again, rfl⟩ := again
        rw [free.eval_eq row other index, ← Expr.eval_and_of_truthy found truth] at foundRight
        exact ⟨cell, later, foundRight, (ih (other + 1)).mpr ⟨middle, sifted, again⟩, rfl⟩
      | false =>
        rw [truth, if_neg Bool.false_ne_true] at again
        refine ⟨left, kept, Expr.eval_and_of_falsy found truth, (ih other).mpr ⟨middle, sifted, again⟩, ?_⟩
        rw [truth, if_neg Bool.false_ne_true]

end Sifts

/-! ### Tables -/

namespace Table

variable {t made : Table} {e first second : Expr}

theorem filter_iff_sifts : t.filter e = .ok made ↔ e.columns ⊆ t.columns ∧
    ∃ kept, Sifts e 0 t.rows kept ∧ ofParts t.columns kept t.groupColumns = made := by
  simp only [filter_eq_ok, evaluate, guarded_eq_ok, requireFor_eq_ok, mapError_eq_ok, Sifts.iff_evalFrom]
  constructor
  · rintro ⟨cells, ⟨present, evaluated⟩, rfl⟩
    exact ⟨present, _, ⟨cells, evaluated, rfl⟩, rfl⟩
  · rintro ⟨present, _, ⟨cells, evaluated, rfl⟩, rfl⟩
    exact ⟨cells, ⟨present, evaluated⟩, rfl⟩

/-- If the second expression does not ask for row numbers, filtering by one expression and then by
another makes of a table what filtering by their conjunction makes of it, with the same grouping, or
neither succeeds. They succeed if the table has all columns, the first expression has a value in
every row and the second has one in every row where that of the first is truthy. -/
theorem filters_fuse (c : Context) (t : Table) (first : Expr) {second : Expr} (free : second.Unnumbered) :
    let fused := (Stage.filter (.binary .and first second)).apply c t
    (∀ made, ((Stage.filter first).apply c t >>= (Stage.filter second).apply c) = .ok made ↔
      fused = .ok made) ∧
    ((∃ made, fused = .ok made) ↔ first.columns ⊆ t.columns ∧ second.columns ⊆ t.columns ∧
      ∀ index row, t.rows[index]? = some row → ∃ cell, first.eval row index = .ok cell ∧
        (cell.isTruthy = true → ∃ cell, second.eval row index = .ok cell)) := by
  intro fused
  have fused_iff (made : Table) : fused = .ok made ↔
      (first.columns ⊆ t.columns ∧ second.columns ⊆ t.columns) ∧
        ∃ kept, Sifts (.binary .and first second) 0 t.rows kept ∧
          ofParts t.columns kept t.groupColumns = made := by
    rw [← Expr.columns_binary_subset]
    exact filter_iff_sifts
  constructor
  · intro made
    rw [fused_iff, bind_eq_ok]
    constructor
    · rintro ⟨_, once, twice⟩
      obtain ⟨present, middle, sifted, rfl⟩ := filter_iff_sifts.mp once
      obtain ⟨present', kept, again, rfl⟩ := filter_iff_sifts.mp twice
      rw [groupColumns_ofParts]
      exact ⟨⟨present, present'⟩, kept, (Sifts.and_iff free 0).mpr ⟨middle, sifted, again⟩, rfl⟩
    · rintro ⟨⟨present, present'⟩, kept, both, rfl⟩
      obtain ⟨middle, sifted, again⟩ := (Sifts.and_iff free 0).mp both
      refine ⟨_, filter_iff_sifts.mpr ⟨present, middle, sifted, rfl⟩,
        filter_iff_sifts.mpr ⟨present', kept, again, ?_⟩⟩
      rw [groupColumns_ofParts]
      rfl
  · have sifted : (∃ kept, Sifts (.binary .and first second) 0 t.rows kept) ↔ _ := Sifts.exists_iff
    simp only [Nat.zero_add, Expr.exists_eval_and] at sifted
    rw [← sifted, ← and_assoc]
    constructor
    · rintro ⟨made, ended⟩
      obtain ⟨present, kept, both, _⟩ := (fused_iff made).mp ended
      exact ⟨present, kept, both⟩
    · rintro ⟨present, kept, both⟩
      exact ⟨_, (fused_iff _).mpr ⟨present, kept, both, rfl⟩⟩

/-- Four lots, one with a size that is no number. -/
def lots : Table :=
  let sizes : List (String × Value) := [("a", .number 1), ("b", .text "big"), ("c", .number 4), ("d", .number 9)]
  ofParts ["lot", "size"] (sizes.map fun (lot, size) =>
    .ofList [("lot", some (.text lot)), ("size", some size)]) (some ["size"])

def isSized : Expr := .unary (.hasKind .number) (.column "size")

/-- Fails where the size is no number. -/
def isLarge : Expr := .binary (.comparison .greaterEqual) (.column "size") (.constant (some (.number 4)))

theorem filters_fuse_lots :
    isLarge.Unnumbered ∧
    (∃ cause, (Stage.filter isLarge).apply .empty lots = .error cause) ∧
    ∃ made, (Stage.filter (.binary .and isSized isLarge)).apply .empty lots = .ok made ∧
      ((Stage.filter isSized).apply .empty lots >>= (Stage.filter isLarge).apply .empty) = .ok made ∧
      (made.rows.map fun row => row.cell "lot") = [some (.text "c"), some (.text "d")] ∧
      (made.grouping.map fun grouping => grouping.groups.map Group.rows) = some [[0], [1]] := by
  have free : isLarge.Unnumbered := ⟨trivial, trivial⟩
  obtain ⟨same, _⟩ := filters_fuse .empty lots isSized free
  refine ⟨free, ⟨_, rfl⟩, _, rfl, (same _).mpr rfl, rfl, rfl⟩

end Table

end Tableflow
