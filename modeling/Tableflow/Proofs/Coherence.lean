import Tableflow.Proofs.Agreement
import Tableflow.Proofs.Lookups

/-!
The six comparison operators. Two of them test equality and four ask for the order of two values,
but all answers can be read off the order alone. So the operators fit together, and no two values of
one kind turn out to have no order.
-/

namespace Tableflow

/-! ### Orders of values -/

theorem Value.exists_compare?_swap {v w : Value} (first : Cell.Numbers Number.HasOrder (some v))
    (second : Cell.Numbers Number.HasOrder (some w)) (alike : v.kind = w.kind) :
    ∃ order, v.compare? w = some order ∧ w.compare? v = some order.swap := by
  obtain ⟨order, compared⟩ := exists_compare? first second alike
  obtain ⟨back, compared'⟩ := exists_compare? second first alike.symm
  have turned := Cell.compare_swap second first
  rw [Cell.compare_of_compare? compared, Cell.compare_of_compare? compared'] at turned
  exact ⟨order, compared, turned ▸ compared'⟩

theorem Cell.compare_lt_trans {a b c : Cell} (first : a.Numbers Number.HasOrder)
    (second : b.Numbers Number.HasOrder) (third : c.Numbers Number.HasOrder)
    (alike : SameKind a b) (alike' : SameKind b c) (alike'' : SameKind c a)
    (below : compare a b = .lt) (below' : compare b c = .lt) : compare a c = .lt := by
  have notAbove := compare_trans first second third alike alike' (below ▸ rfl) (below' ▸ rfl)
  cases ends : compare a c with
  | lt => rfl
  | gt => simp [ends] at notAbove
  | eq =>
    -- if the ends tied, the way back would lead from `c` by `a` to `b`
    have back : (compare c a).isLE := by
      rw [compare_swap third first, ends]
      rfl
    have around := compare_trans third first second alike'' alike back (below ▸ rfl)
    rw [compare_swap third second, below'] at around
    cases around

/-! ### Answers of the operators -/

namespace Comparison

variable {a b : Cell} {v w : Value} {order : Ordering}

/-- What the operator says of two values in the given order. -/
def answer : Comparison → Ordering → Bool
  | equal => Ordering.isEq
  | notEqual => Ordering.isNe
  | greater => Ordering.isGT
  | greaterEqual => Ordering.isGE
  | less => Ordering.isLT
  | lessEqual => Ordering.isLE

theorem existsUnique_answer (order : Ordering) :
    ∃! op ∈ [less, equal, greater], op.answer order = true := by
  cases order with
  | lt => exact ⟨less, by decide, fun op => by cases op <;> decide⟩
  | eq => exact ⟨equal, by decide, fun op => by cases op <;> decide⟩
  | gt => exact ⟨greater, by decide, fun op => by cases op <;> decide⟩

theorem apply_of_missing (missing : a = none ∨ b = none) (op : Comparison) : op.apply a b = .ok none := by
  rcases missing with rfl | rfl
  · rfl
  · cases a <;> rfl

theorem apply_of_apart (apart : v.kind ≠ w.kind) (op : Comparison) :
    op.apply (some v) (some w) = .error (.mismatch (.unequal op.name v.kind w.kind)) := by
  show (EvalError.demand (if v.kind = w.kind then _ else _) >>= fun _ => _) = _
  rw [if_neg apart]
  rfl

section

variable (first : Cell.Numbers Number.HasOrder (some v)) (second : Cell.Numbers Number.HasOrder (some w))

include first second

theorem holds_eq (compared : v.compare? w = some order) (op : Comparison) :
    op.holds v w = .ok (op.answer order) := by
  have equal : v.equal w = order.isEq := by
    rw [Bool.eq_iff_iff, ← Value.compare?_eq_eq_iff first second, compared, Option.some_inj,
      Ordering.isEq_iff_eq_eq]
  cases op <;> simp only [holds, compared, equal, answer]
  cases order <;> rfl

theorem apply_eq (compared : v.compare? w = some order) (op : Comparison) :
    op.apply (some v) (some w) = .ok (some (.logical (op.answer order))) := by
  show (EvalError.demand (if v.kind = w.kind then _ else _) >>= fun _ => _) = _
  rw [if_pos (Value.kind_eq_of_compare? compared)]
  show (op.holds v w >>= fun _ => _) = _
  rw [holds_eq first second compared]
  rfl

end

/-- All that can come of comparing two cells. -/
theorem apply_cases (first : a.Numbers Number.HasOrder) (second : b.Numbers Number.HasOrder) :
    (∀ op : Comparison, op.apply a b = .ok none) ∨
    (∃ kind kind', ∀ op : Comparison, op.apply a b = .error (.mismatch (.unequal op.name kind kind'))) ∨
    ∃ v w order, a = some v ∧ b = some w ∧ v.compare? w = some order ∧
      ∀ op : Comparison, op.apply a b = .ok (some (.logical (op.answer order))) := by
  match a, b with
  | none, _ => exact .inl (apply_of_missing (.inl rfl))
  | some v, none => exact .inl (apply_of_missing (.inr rfl))
  | some v, some w =>
    by_cases alike : v.kind = w.kind
    · obtain ⟨order, compared⟩ := Value.exists_compare? first second alike
      exact .inr (.inr ⟨v, w, order, rfl, rfl, compared, apply_eq first second compared⟩)
    · exact .inr (.inl ⟨_, _, apply_of_apart alike⟩)

theorem less_apply_iff (first : a.Numbers Number.HasOrder) (second : b.Numbers Number.HasOrder) :
    less.apply a b = .ok (some (.logical true)) ↔
      ∃ v w, a = some v ∧ b = some w ∧ v.compare? w = some .lt := by
  constructor
  · intro said
    rcases apply_cases first second with missing | ⟨_, _, failed⟩ | ⟨v, w, order, here, there, compared, told⟩
    · cases (missing less).symm.trans said
    · cases (failed less).symm.trans said
    · rw [told] at said
      cases order with
      | lt => exact ⟨v, w, here, there, compared⟩
      | _ => cases said
  · rintro ⟨v, w, rfl, rfl, compared⟩
    exact apply_eq first second compared less

theorem less_apply_trans {c : Cell} (first : a.Numbers Number.HasOrder)
    (second : b.Numbers Number.HasOrder) (third : c.Numbers Number.HasOrder)
    (below : less.apply a b = .ok (some (.logical true)))
    (below' : less.apply b c = .ok (some (.logical true))) :
    less.apply a c = .ok (some (.logical true)) := by
  obtain ⟨v, w, rfl, rfl, compared⟩ := (less_apply_iff first second).mp below
  obtain ⟨w, u, same, rfl, compared'⟩ := (less_apply_iff second third).mp below'
  obtain rfl := Option.some.inj same
  have alike := Value.kind_eq_of_compare? compared
  have alike' := Value.kind_eq_of_compare? compared'
  have ends := Cell.compare_lt_trans first second third (Cell.sameKind_some alike)
    (Cell.sameKind_some alike') (Cell.sameKind_some (alike.trans alike').symm)
    (Cell.compare_of_compare? compared) (Cell.compare_of_compare? compared')
  obtain ⟨order, between⟩ := Value.exists_compare? first third (alike.trans alike')
  rw [Cell.compare_of_compare? between] at ends
  exact (less_apply_iff first third).mpr ⟨v, u, rfl, rfl, ends ▸ between⟩

end Comparison

def EvalError.IsUnordered : EvalError → Prop
  | mismatch (.unordered _ _ _) => True
  | _ => False

theorem avoids_require (kind : Kind) (operation : String) (cell : Cell) :
    Avoids EvalError.IsUnordered (EvalError.demand (cell.require kind operation)) := by
  cases cell with
  | none => exact avoids_ok ()
  | some v =>
    show Avoids EvalError.IsUnordered (EvalError.demand (if v.kind = kind then _ else _))
    by_cases met : v.kind = kind
    · rw [if_pos met]
      exact avoids_ok ()
    · rw [if_neg met]
      rintro _ ⟨⟩
      exact id

theorem Comparison.avoids_unordered (op : Comparison) (a b : Cell) (first : a.Numbers Number.HasOrder)
    (second : b.Numbers Number.HasOrder) : Avoids EvalError.IsUnordered (op.apply a b) := by
  rcases apply_cases first second with missing | ⟨_, _, failed⟩ | ⟨_, _, _, _, _, _, told⟩
  · rw [missing]
    exact avoids_ok none
  · rw [failed]
    rintro _ ⟨⟩
    exact id
  · rw [told]
    exact avoids_ok _

/-! ### Expressions -/

namespace Expr

variable {row : Row} {index : Nat} {left right : Expr} {a b : Cell}

theorem eval_comparison (first : left.eval row index = .ok a) (second : right.eval row index = .ok b)
    (op : Comparison) : (binary (.comparison op) left right).eval row index = op.apply a b := by
  rw [eval, first, second]
  rfl

theorem hasOrder_eval (ordered : row.Numbers Number.HasOrder) {e : Expr} {cell : Cell}
    (constants : e.Numbers Number.HasOrder) (evaluated : e.eval row index = .ok cell) :
    cell.Numbers Number.HasOrder :=
  numbers_eval (fun _ => Number.hasOrder_of_isFinite) ordered Number.nearest_ne_nan constants evaluated

theorem less_trans (ordered : row.Numbers Number.HasOrder) {first second third : Expr}
    (constants : first.Numbers Number.HasOrder) (constants' : second.Numbers Number.HasOrder)
    (constants'' : third.Numbers Number.HasOrder)
    (below : (binary (.comparison .less) first second).eval row index = .ok (some (.logical true)))
    (below' : (binary (.comparison .less) second third).eval row index = .ok (some (.logical true))) :
    (binary (.comparison .less) first third).eval row index = .ok (some (.logical true)) := by
  obtain ⟨a, found, below⟩ := bind_eq_ok.mp below
  obtain ⟨b, found', below⟩ := bind_eq_ok.mp below
  obtain ⟨middle, same, below'⟩ := bind_eq_ok.mp below'
  obtain ⟨c, found'', below'⟩ := bind_eq_ok.mp below'
  obtain rfl := Except.ok.inj (found'.symm.trans same)
  rw [eval_comparison found found'']
  exact Comparison.less_apply_trans (hasOrder_eval ordered constants found)
    (hasOrder_eval ordered constants' found') (hasOrder_eval ordered constants'' found'') below below'

/-- In a row without not-a-number, two expressions that have values compare as one order says. A
missing value makes every comparison missing, and values of different kinds make every comparison
fail. Otherwise exactly one of less, equal and greater holds, the other three operators are their
negations, and less is greater turned round and transitive. No expression fails for want of an
order. -/
theorem comparisons_cohere (ordered : row.Numbers Number.HasOrder) (index : Nat) :
    let compared (op : Comparison) (left right : Expr) :=
      (binary (.comparison op) left right).eval row index
    (∀ left right : Expr, left.Numbers Number.HasOrder → right.Numbers Number.HasOrder →
      ∀ a b, left.eval row index = .ok a → right.eval row index = .ok b →
      (a = none ∨ b = none → ∀ op, compared op left right = .ok none) ∧
      ∀ v w, a = some v → b = some w →
        (v.kind ≠ w.kind → ∀ op, compared op left right =
          .error (.mismatch (.unequal op.name v.kind w.kind))) ∧
        (v.kind = w.kind → ∃ holds : Comparison → Bool,
          (∀ op, compared op left right = .ok (some (.logical (holds op)))) ∧
          (∃! op ∈ [Comparison.less, .equal, .greater], holds op = true) ∧
          holds .lessEqual = !holds .greater ∧ holds .greaterEqual = !holds .less ∧
          holds .notEqual = !holds .equal ∧
          compared .less left right = compared .greater right left)) ∧
    (∀ first second third : Expr, first.Numbers Number.HasOrder → second.Numbers Number.HasOrder →
      third.Numbers Number.HasOrder → compared .less first second = .ok (some (.logical true)) →
      compared .less second third = .ok (some (.logical true)) →
      compared .less first third = .ok (some (.logical true))) ∧
    ∀ e : Expr, e.Numbers Number.HasOrder → ∀ operation kind kind',
      e.eval row index ≠ .error (.mismatch (.unordered operation kind kind')) := by
  intro compared
  refine ⟨?_, fun _ _ _ => less_trans ordered, ?_⟩
  · intro left right constants constants' a b found found'
    have applied (op : Comparison) : compared op left right = op.apply a b := eval_comparison found found' op
    refine ⟨fun missing op => ?_, ?_⟩
    · rw [applied, Comparison.apply_of_missing missing]
    rintro v w rfl rfl
    have numbers := hasOrder_eval ordered constants found
    have numbers' := hasOrder_eval ordered constants' found'
    refine ⟨fun apart op => ?_, fun alike => ?_⟩
    · rw [applied, Comparison.apply_of_apart apart]
    obtain ⟨order, forth, back⟩ := Value.exists_compare?_swap numbers numbers' alike
    refine ⟨fun op => op.answer order, fun op => ?_, Comparison.existsUnique_answer order, ?_⟩
    · rw [applied, Comparison.apply_eq numbers numbers' forth]
    have turned : compared .less left right = compared .greater right left := by
      have applied' : compared .greater right left = _ := eval_comparison found' found .greater
      rw [applied, applied', Comparison.apply_eq numbers numbers' forth,
        Comparison.apply_eq numbers' numbers back]
      cases order <;> rfl
    cases order <;> exact ⟨rfl, rfl, rfl, turned⟩
  · intro e constants operation kind kind' failed
    refine Expr.avoids_eval_of avoids_require (fun name _ => ?_)
      (fun e cell constants => hasOrder_eval ordered constants) Comparison.avoids_unordered constants _
      failed trivial
    rw [eval]
    split
    · exact avoids_ok _
    · rintro _ ⟨⟩
      exact id

end Expr

def parcel : Row :=
  .ofList [("size", some (.number 2)), ("color", some (.text "red")), ("note", none)]

theorem comparisons_cohere_parcel :
    let compared (op : Comparison) (left right : Expr) :=
      (Expr.binary (.comparison op) left right).eval parcel 3
    parcel.Numbers Number.HasOrder ∧
    (∀ op, compared op (.column "size") (.column "note") = .ok none) ∧
    (∀ op, compared op (.column "size") (.column "color") =
      .error (.mismatch (.unequal op.name .number .text))) ∧
    (∃ holds : Comparison → Bool,
      (∀ op, compared op (.column "size") .rowIndex = .ok (some (.logical (holds op)))) ∧
      ∃! op ∈ [Comparison.less, .equal, .greater], holds op = true) ∧
    compared .less (.column "size") (.constant (some (.number 4))) = .ok (some (.logical true)) ∧
    ∀ operation kind kind', compared .less .rowIndex (.column "color") ≠
      .error (.mismatch (.unordered operation kind kind')) := by
  intro compared
  have ordered : parcel.Numbers Number.HasOrder := by decide
  obtain ⟨coherent, transitive, total⟩ := Expr.comparisons_cohere ordered 3
  obtain ⟨missing, _⟩ := coherent (.column "size") (.column "note") trivial trivial _ _ rfl rfl
  obtain ⟨_, kinds⟩ := coherent (.column "size") (.column "color") trivial trivial _ _ rfl rfl
  obtain ⟨_, numbers⟩ := coherent (.column "size") .rowIndex trivial trivial _ _ rfl rfl
  obtain ⟨holds, said, one, _⟩ := (numbers _ _ rfl rfl).2 rfl
  have four : (Expr.constant (some (.number 4))).Numbers Number.HasOrder := by
    show Number.HasOrder 4
    decide
  exact ⟨ordered, missing (.inr rfl), (kinds _ _ rfl rfl).1 nofun, ⟨holds, said, one⟩,
    transitive (.column "size") .rowIndex _ trivial trivial four rfl rfl,
    total (.binary (.comparison .less) .rowIndex (.column "color")) ⟨trivial, trivial⟩⟩

end Tableflow
