import Tableflow.Proofs.Lookups

/-!
What an expression reads. Its columns are listed without regard to what is evaluated, and they are
all that its value depends on. Stages check the list before they look at a row, so no row is ever
found to lack a column.
-/

namespace Tableflow

namespace Expr

variable {e : Expr} {row other : Row}

theorem eval_congr (index : Nat) (agree : ∀ name ∈ e.references, row.get? name = other.get? name) :
    e.eval row index = e.eval other index := by
  induction e with
  | constant cell => rfl
  | column name => rw [eval, eval, agree name (List.mem_singleton.mpr rfl)]
  | rowIndex => rfl
  | unary op arg ih => rw [eval, eval, ih agree]
  | binary op left right ihLeft ihRight =>
    rw [references, List.forall_mem_append] at agree
    have first := ihLeft agree.1
    have second := ihRight agree.2
    cases op <;> simp only [eval, first, second]
  | ifElse condition yes no ihCondition ihYes ihNo =>
    simp only [references, List.forall_mem_append] at agree
    obtain ⟨⟨agreeCondition, agreeYes⟩, agreeNo⟩ := agree
    simp only [eval, ihCondition agreeCondition, ihYes agreeYes, ihNo agreeNo]

theorem mem_columns {name : String} : name ∈ e.columns ↔ name ∈ e.references := Names.mem_distinct

end Expr

namespace Table

variable {t : Table} {names : List String} {e : Expr} {name : String}

theorem find?_absent_eq_some : (names.find? fun name => !t.hasColumn name) = some name ↔
    ∃ before after, names = before ++ name :: after ∧ before ⊆ t.columns ∧ name ∉ t.columns := by
  rw [List.find?_eq_some_iff_append]
  constructor
  · rintro ⟨absent, before, after, split, known⟩
    refine ⟨before, after, split, fun other member => ?_, by simpa [hasColumn] using absent⟩
    simpa [hasColumn] using known other member
  · rintro ⟨before, after, split, known, absent⟩
    refine ⟨by simpa [hasColumn] using absent, before, after, split, fun other member => ?_⟩
    simpa [hasColumn] using known member

theorem exists_find?_absent (member : name ∈ names) (absent : name ∉ t.columns) :
    ∃ first, (names.find? fun name => !t.hasColumn name) = some first := by
  rw [← Option.isSome_iff_exists, List.find?_isSome]
  exact ⟨name, member, by simpa [hasColumn] using absent⟩

/-- The columns of an expression are checked in the order of their mentions. -/
theorem evaluate_eq (t : Table) (e : Expr) :
    t.evaluate e = match e.references.find? fun name => !t.hasColumn name with
      | some name => .error (.table (.unknownColumn name))
      | none => (evalFrom e 0 t.rows).mapError .eval := by
  rw [evaluate, requireFor, require, Expr.columns, Names.find?_distinct]
  cases e.references.find? fun name => !t.hasColumn name <;> rfl

/-- An evaluation fails at the first mention of a column that is not there, whatever the rows. -/
theorem evaluate_eq_unknown : t.evaluate e = .error (.table (.unknownColumn name)) ↔
    ∃ before after, e.references = before ++ name :: after ∧ before ⊆ t.columns ∧
      name ∉ t.columns := by
  rw [← find?_absent_eq_some, evaluate_eq]
  cases e.references.find? fun name => !t.hasColumn name with
  | some first => simp
  | none => cases evalFrom e 0 t.rows <;> exact ⟨nofun, nofun⟩

theorem avoids_evalFrom {rows : List Row} (index : Nat)
    (present : ∀ row ∈ rows, ∀ name ∈ e.references, ∃ cell, row.get? name = some cell) :
    Avoids EvalError.IsUnknown (evalFrom e index rows) := by
  induction rows generalizing index with
  | nil => exact avoids_ok []
  | cons row rest ih =>
    rw [List.forall_mem_cons] at present
    exact (Expr.avoids_eval index present.1).bind fun _ _ =>
      (ih (index + 1) present.2).bind fun _ _ => avoids_ok _

theorem evaluate_ne_unknown (complete : t.Complete) (e : Expr) (name : String) :
    t.evaluate e ≠ .error (.eval (.unknownColumn name)) := by
  rw [evaluate_eq]
  cases checked : e.references.find? fun name => !t.hasColumn name with
  | some first => simp
  | none =>
    have listed : ∀ name ∈ e.references, name ∈ t.columns := by
      simpa [hasColumn] using List.find?_eq_none.mp checked
    intro failed
    obtain ⟨cause, ended, same⟩ := mapError_eq_error.mp failed
    have known := avoids_evalFrom 0 (fun row member name mentioned =>
      complete row member name (listed name mentioned)) cause ended
    rw [StageError.eval.inj same] at known
    exact known trivial

end Table

theorem Stage.apply_eq_error {stage : Stage} {e : Expr}
    (evaluates : stage = .filter e ∨ ∃ column, stage = .mutate column e) (c : Context) (t : Table)
    {cause : StageError} : stage.apply c t = .error cause ↔ t.evaluate e = .error cause := by
  rcases evaluates with rfl | ⟨column, rfl⟩
  · exact bind_pure_eq_error
  · exact bind_pure_eq_error

/-- Two rows that agree under the columns of an expression give it one value, and a row that has these
columns gives it a value unless kinds do not fit. So a stage that evaluates it never finds a row
without a column: it fails for the first mention of a column that its table does not have, and does
so for every table without it, whatever the rows and whether or not the mention would be reached. -/
theorem expressions_read_columns :
    (∀ (e : Expr) (index : Nat) (row other : Row),
      (∀ name ∈ e.columns, row.get? name = other.get? name) → e.eval row index = e.eval other index) ∧
    (∀ (e : Expr) (index : Nat) (row : Row), (∀ name ∈ e.columns, ∃ cell, row.get? name = some cell) →
      ∀ name, e.eval row index ≠ .error (.unknownColumn name)) ∧
    ∀ (t : Table) (c : Context) (e : Expr) (stage : Stage), t.Keyed Eq →
      (stage = .filter e ∨ ∃ column, stage = .mutate column e) →
      (∀ name, stage.apply c t ≠ .error (.eval (.unknownColumn name))) ∧
      ((∃ name, stage.apply c t = .error (.table (.unknownColumn name))) ↔
        ∃ name ∈ e.columns, name ∉ t.columns) ∧
      ∀ name, stage.apply c t = .error (.table (.unknownColumn name)) ↔
        ∃ before after, e.references = before ++ name :: after ∧ before ⊆ t.columns ∧
          name ∉ t.columns := by
  refine ⟨?_, ?_, ?_⟩
  · intro e index row other agree
    exact Expr.eval_congr index fun name mentioned => agree name (Expr.mem_columns.mpr mentioned)
  · intro e index row present name failed
    refine Expr.avoids_eval index (fun name mentioned => ?_) _ failed trivial
    exact present name (Expr.mem_columns.mpr mentioned)
  · intro t c e stage keyed evaluates
    have unknown (name : String) := (Stage.apply_eq_error evaluates c t).trans
      (@Table.evaluate_eq_unknown t e name)
    refine ⟨?_, ?_, unknown⟩
    · intro name failed
      exact Table.evaluate_ne_unknown keyed.complete e name
        ((Stage.apply_eq_error evaluates c t).mp failed)
    · simp only [unknown]
      constructor
      · rintro ⟨name, before, after, split, _, absent⟩
        exact ⟨name, Expr.mem_columns.mpr (by simp [split]), absent⟩
      · rintro ⟨name, mentioned, absent⟩
        obtain ⟨first, found⟩ := Table.exists_find?_absent (Expr.mem_columns.mp mentioned) absent
        exact ⟨first, Table.find?_absent_eq_some.mp found⟩

/-- The price of large goods, if they are red. -/
def redPrice : Expr :=
  .binary .and (.binary (.comparison .greater) (.column "size") (.constant (some (.number 3))))
    (.ifElse (.binary (.comparison .equal) (.column "color") (.constant (some (.text "red"))))
      (.column "price") (.constant none))

def boxed : Row :=
  .ofList [("size", some (.number 2)), ("color", some (.text "red")), ("price", none),
    ("note", some (.text "boxed"))]

def loose : Row :=
  .ofList [("price", none), ("color", some (.text "red")), ("size", some (.number 2))]

theorem expressions_read_goods :
    boxed.keys ≠ loose.keys ∧ redPrice.eval boxed 7 = redPrice.eval loose 7 ∧
    (∀ name, redPrice.eval loose 7 ≠ .error (.unknownColumn name)) ∧
    (Stage.filter redPrice).apply .empty ⟨["size"], [], none⟩ =
      .error (.table (.unknownColumn "color")) ∧
    ∃ row : Row, (∃ cell, redPrice.eval row 0 = .ok cell) ∧
      (Stage.mutate "size" redPrice).apply .empty ⟨["size"], [row], none⟩ =
        .error (.table (.unknownColumn "color")) := by
  obtain ⟨agree, known, stages⟩ := expressions_read_columns
  have columns : redPrice.columns = ["size", "color", "price"] := rfl
  have first (rows : List Row) : ∃ before after, redPrice.references = before ++ "color" :: after ∧
      before ⊆ (⟨["size"], rows, none⟩ : Table).columns ∧
      "color" ∉ (⟨["size"], rows, none⟩ : Table).columns :=
    ⟨["size"], ["price"], rfl, by simp, by simp⟩
  refine ⟨by decide, agree _ _ _ _ ?_, known _ _ _ ?_, ?_, .ofList [("size", none)], ⟨_, rfl⟩, ?_⟩
  · rw [columns]
    simp only [List.forall_mem_cons]
    exact ⟨rfl, rfl, rfl, List.forall_mem_nil _⟩
  · rw [columns]
    simp only [List.forall_mem_cons]
    exact ⟨⟨_, rfl⟩, ⟨_, rfl⟩, ⟨_, rfl⟩, List.forall_mem_nil _⟩
  · refine ((stages _ _ redPrice _ ?_ (.inl rfl)).2.2 _).mpr (first _)
    exact List.forall_mem_nil _
  · refine ((stages _ _ redPrice _ ?_ (.inr ⟨_, rfl⟩)).2.2 _).mpr (first _)
    exact List.forall_mem_singleton.mpr rfl

end Tableflow
