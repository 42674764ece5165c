import Tableflow.Proofs.FirstRows

/-!
Keys, equality and order agree. Groups and joins go by keys, conditions test equality, and sorts
compare. Where no number is not-a-number, all of them take the same cells for one, and none of them
relates values of different kinds.
-/

namespace Tableflow

instance : Std.LawfulEqCmp Datetime.compare where
  eq_of_compare {a b} same := by
    obtain ⟨⟨year, month, day, _, _, _⟩, hour, minute, second, nanosecond, _⟩ := a
    obtain ⟨⟨year', month', day', _, _, _⟩, hour', minute', second', nanosecond', _⟩ := b
    simpa [Datetime.compare, Ordering.then_eq_eq, and_assoc] using same

/-! ### Values -/

theorem Number.compare?_eq_eq_iff {x y : Float} (first : HasOrder x) (second : HasOrder y) :
    compare? x y = some .eq ↔ (x == y) = true := by
  rw [compare?_eq first second, beq_iff first second, Option.some_inj, compare_eq_iff_eq]

namespace Value

variable {v w : Value}

theorem kind_eq_of_compare? {order : Ordering} (compared : v.compare? w = some order) :
    v.kind = w.kind := by
  cases v <;> cases w <;> simp_all [compare?, kind]

theorem compare?_of_apart (apart : v.kind ≠ w.kind) : v.compare? w = none :=
  Option.eq_none_iff_forall_ne_some.mpr fun _ compared => apart (kind_eq_of_compare? compared)

theorem equal_of_apart (apart : v.kind ≠ w.kind) : v.equal w = false := by
  cases same : v.equal w with
  | false => rfl
  | true => exact absurd (kind_eq_of_equal same) apart

section

variable (first : Cell.Numbers Number.HasOrder (some v)) (second : Cell.Numbers Number.HasOrder (some w))

include first second

theorem exists_compare? (alike : v.kind = w.kind) : ∃ order, v.compare? w = some order := by
  cases v with
  | logical a => cases w with
    | logical b => exact ⟨_, rfl⟩
    | _ => cases alike
  | number x => cases w with
    | number y => exact ⟨_, Number.compare?_eq first second⟩
    | _ => cases alike
  | text a => cases w with
    | text b => exact ⟨_, rfl⟩
    | _ => cases alike
  | datetime a => cases w with
    | datetime b => exact ⟨_, rfl⟩
    | _ => cases alike

theorem compare?_eq_eq_iff : v.compare? w = some .eq ↔ v.equal w = true := by
  cases v with
  | logical a => cases w <;> simp [compare?, equal]
  | number x => cases w with
    | number y => exact Number.compare?_eq_eq_iff first second
    | _ => simp [compare?, equal]
  | text a => cases w <;> simp [compare?, equal]
  | datetime a => cases w <;> simp [compare?, equal, Std.LawfulEqCmp.compare_eq_iff_eq]

end

end Value

/-! ### Cells -/

namespace Cell

variable {a b : Cell} {v w : Value}

theorem compare_of_compare? {order : Ordering} (compared : v.compare? w = some order) :
    compare (some v) (some w) = order := by
  rw [compare, compared, Option.getD_some]

theorem sameKind_some (alike : v.kind = w.kind) : SameKind (some v) (some w) := by
  rintro _ ⟨⟩ _ ⟨⟩
  exact alike

/-- Cells of one kind share a key exactly if neither comes before the other. -/
theorem key_eq_iff_compare (first : a.Numbers Number.HasOrder) (second : b.Numbers Number.HasOrder)
    (alike : SameKind a b) : a.key = b.key ↔ compare a b = .eq := by
  rw [key_eq_iff_matches first second]
  cases a with
  | none => cases b <;> simp [Matches, compare]
  | some v => cases b with
    | none => simp [Matches, compare]
    | some w =>
      have kind : v.kind = w.kind := alike v rfl w rfl
      obtain ⟨order, compared⟩ := Value.exists_compare? first second kind
      rw [compare_of_compare? compared, ← Option.some_inj, ← compared,
        Value.compare?_eq_eq_iff first second]
      exact and_iff_right kind

/-- Without not-a-number, two cells share a key exactly if both are missing, or both are values of one
kind that are equal. For two values of one kind it comes to the same to compare them, as values or as
cells; values of different kinds share no key, are not equal and have no order. -/
theorem keys_agree_with_order (first : a.Numbers Number.HasOrder) (second : b.Numbers Number.HasOrder) :
    (a.key = b.key ↔ a = none ∧ b = none ∨
      ∃ v w, a = some v ∧ b = some w ∧ v.kind = w.kind ∧ v.equal w = true) ∧
    ∀ v w, a = some v → b = some w →
      (v.kind = w.kind → (a.key = b.key ↔ v.equal w = true) ∧
        (a.key = b.key ↔ v.compare? w = some .eq) ∧ (a.key = b.key ↔ a.compare b = .eq)) ∧
      (v.kind ≠ w.kind → a.key ≠ b.key ∧ v.equal w = false ∧ v.compare? w = none) := by
  constructor
  · rw [key_eq_iff_matches first second]
    cases a <;> cases b <;> simp [Matches]
  · rintro v w rfl rfl
    have equal := key_some_eq_iff first second
    refine ⟨fun alike => ⟨equal, ?_, ?_⟩, fun apart => ⟨?_, ?_, ?_⟩⟩
    · rw [equal, Value.compare?_eq_eq_iff first second]
    · exact key_eq_iff_compare first second (sameKind_some alike)
    · rw [Ne, equal, Value.equal_of_apart apart]
      exact Bool.false_ne_true
    · exact Value.equal_of_apart apart
    · exact Value.compare?_of_apart apart

def zero : Cell := some (.number 0)

def minusZero : Cell := some (.number (-0))

theorem keys_agree_on_zeros :
    zero.Numbers Number.HasOrder ∧ minusZero.Numbers Number.HasOrder ∧
    (0 : Float).toBits ≠ (-0 : Float).toBits ∧ zero.key = minusZero.key ∧
    (Value.number 0).compare? (.number (-0)) = some .eq ∧ zero.compare minusZero = .eq ∧
    zero.key ≠ key (some (.text "0")) ∧ (Value.number 0).compare? (.text "0") = none := by
  have ordered : zero.Numbers Number.HasOrder := by decide
  have ordered' : minusZero.Numbers Number.HasOrder := by decide
  obtain ⟨_, zeros⟩ := keys_agree_with_order ordered ordered'
  obtain ⟨_, kinds⟩ := @keys_agree_with_order zero (some (.text "0")) ordered trivial
  obtain ⟨equal, compared, sorted⟩ := (zeros _ _ rfl rfl).1 rfl
  obtain ⟨apart, _, unordered⟩ := (kinds _ _ rfl rfl).2 nofun
  have shared : zero.key = minusZero.key := equal.mpr (by decide)
  exact ⟨ordered, ordered', by decide, shared, compared.mp shared, sorted.mp shared, apart, unordered⟩

end Cell

end Tableflow
