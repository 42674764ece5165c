import Mathlib
import Tableflow.Proofs.ExactArithmetic
import Tableflow.Proofs.OrderStatistics

/-!
Numbers as decimals. A whole number below `2^96` and a number with few decimal places has a decimal
of the same value, and is given back by it. Whole decimals are added without rounding as long as the
sum is below `2^96`.
-/

namespace Tableflow

namespace Number.Decimal

variable {x : Float} {negative : Bool} {m n k t : Nat} {e : Int}

/-! ### From binary numbers -/

theorem tradeHalves_even (steps t m : Nat) (e : Int) :
    tradeHalves (steps + t) (m * 2 ^ steps) e = tradeHalves t m (e + steps) := by
  induction steps generalizing e with
  | zero => rw [Nat.zero_add, Nat.pow_zero, Nat.mul_one, Nat.cast_zero, Int.add_zero]
  | succ steps ih =>
    rw [Nat.succ_add, tradeHalves, Nat.pow_succ, ← Nat.mul_assoc, Nat.mul_mod_left, if_pos rfl,
      Nat.mul_div_cancel _ Nat.two_pos, ih, Nat.cast_succ, Int.add_right_comm, Int.add_assoc]

theorem tradeHalves_odd (odd : m % 2 = 1) (fits : m * 5 ^ t < limit) : tradeHalves t m e = (m * 5 ^ t, e) := by
  induction t generalizing m with
  | zero => rw [tradeHalves, Nat.pow_zero, Nat.mul_one]
  | succ t ih =>
    rw [Nat.pow_succ', ← Nat.mul_assoc] at fits ⊢
    have room : m * 5 < limit := (Nat.le_mul_of_pos_right _ (Nat.pow_pos (by decide))).trans_lt fits
    rw [tradeHalves, if_neg (by omega), if_pos room, ih (by omega) fits]

theorem tradeDoubles_fits (steps : Nat) (fits : m * 2 ^ steps < limit) :
    tradeDoubles steps m steps = some (m * 2 ^ steps, 0) := by
  induction steps generalizing m with
  | zero => rw [tradeDoubles, Nat.pow_zero, Nat.mul_one, Nat.cast_zero]
  | succ steps ih =>
    rw [Nat.pow_succ', ← Nat.mul_assoc] at fits ⊢
    have room : m * 2 < limit := (Nat.le_mul_of_pos_right _ (Nat.two_pow_pos _)).trans_lt fits
    rw [tradeDoubles, if_pos (by omega), Nat.cast_succ, Int.add_sub_cancel, ih fits]

theorem tradeDoubles_exceeds (steps : Nat) (small : m < limit) (exceeds : limit ≤ m * 2 ^ steps) :
    tradeDoubles steps m steps = none := by
  induction steps generalizing m with
  | zero => omega
  | succ steps ih =>
    rw [Nat.pow_succ', ← Nat.mul_assoc] at exceeds
    rw [tradeDoubles]
    split
    · rw [Nat.cast_succ, Int.add_sub_cancel, ih (by omega) exceeds]
    · rw [if_pos (by omega)]

/-- A whole mantissa is neither lengthened nor shortened. -/
theorem ofParts?_of_whole (halved : tradeHalves (-e).toNat m e = (k, (t : Int)))
    (doubled : tradeDoubles t k t = some (n, 0)) : ofParts? negative m e = some ⟨n, 0, negative⟩ := by
  have steps : (if 0 < (t : Int) then (t : Int).toNat else 0) = t := by
    split <;> omega
  unfold ofParts?
  rw [halved]
  dsimp only
  rw [steps, doubled]
  rfl

theorem ofParts?_whole (value : (m : ℚ) * 2 ^ e = n) (fits : n < limit) :
    ofParts? negative m e = some ⟨n, 0, negative⟩ := by
  rw [← mul_one (n : ℚ), ← zpow_zero (2 : ℚ)] at value
  rcases le_total e 0 with low | high
  · have halves := eq_mul_of_value_eq low value
    rw [zero_sub] at halves
    have halved := tradeHalves_even (-e).toNat 0 n e
    rw [Nat.add_zero, ← halves, Int.toNat_of_nonneg (by omega), add_neg_cancel] at halved
    exact @ofParts?_of_whole _ _ _ n 0 _ halved rfl
  · have doubles := eq_mul_of_value_eq high value.symm
    rw [sub_zero] at doubles
    obtain ⟨t, rfl⟩ := Int.eq_ofNat_of_zero_le high
    rw [Int.toNat_natCast] at doubles
    refine @ofParts?_of_whole _ _ _ m t _ ?_ ?_
    · rw [show (-(t : Int)).toNat = 0 by omega, tradeHalves]
    · rw [doubles]
      exact tradeDoubles_fits t (doubles ▸ fits)

theorem ofParts?_exceeds (value : (m : ℚ) * 2 ^ e = n) (small : m < limit) (exceeds : limit ≤ n) :
    ofParts? negative m e = none := by
  rw [← mul_one (n : ℚ), ← zpow_zero (2 : ℚ)] at value
  rcases le_total e 0 with low | high
  · have halves := eq_mul_of_value_eq low value
    have large := Nat.le_mul_of_pos_right n (Nat.two_pow_pos (0 - e).toNat)
    omega
  · have doubles := eq_mul_of_value_eq high value.symm
    rw [sub_zero] at doubles
    obtain ⟨t, rfl⟩ := Int.eq_ofNat_of_zero_le high
    rw [Int.toNat_natCast] at doubles
    have steps : (if 0 < (t : Int) then (t : Int).toNat else 0) = t := by
      split <;> omega
    unfold ofParts?
    rw [show (-(t : Int)).toNat = 0 by omega, tradeHalves]
    dsimp only
    rw [steps, tradeDoubles_exceeds t small (doubles ▸ exceeds)]
    rfl

theorem dropGuard_small (small : m < hiddenBit) (scale : Nat) : dropGuard scale m = (m, scale) := by
  cases scale with
  | zero => rfl
  | succ scale => rw [dropGuard, if_neg (Nat.not_le.mpr small)]

theorem dropZeros_odd (odd : m % 2 = 1) (scale : Nat) : dropZeros scale m = (m, scale) := by
  cases scale with
  | zero => rfl
  | succ scale => rw [dropZeros, if_neg (by omega)]

theorem places_le (some : 0 < k) (fits : k * 5 ^ t < hiddenBit) : t ≤ 22 := by
  by_contra many
  have large : 5 ^ 23 ≤ 5 ^ t := Nat.pow_le_pow_right (by decide) (by omega)
  have larger := Nat.le_mul_of_pos_left (5 ^ t) some
  unfold hiddenBit at fits
  omega

/-- Binary places become decimal places: `k / 2^t` is `k · 5^t / 10^t`. -/
theorem ofParts?_places (odd : k % 2 = 1) (value : (m : ℚ) * 2 ^ e = k * 2 ^ (-(t : Int)))
    (fits : k * 5 ^ t < hiddenBit) : ofParts? negative m e = some ⟨k * 5 ^ t, t, negative⟩ := by
  have places : t ≤ 22 := places_le (by omega) fits
  -- An odd mantissa has no factor of two to give to a greater exponent.
  have low : e ≤ -(t : Int) := by
    by_contra above
    have even := eq_mul_of_value_eq (not_le.mp above).le value.symm
    rw [show (e - -(t : Int)).toNat = (e - -(t : Int)).toNat - 1 + 1 by omega, pow_succ, ← mul_assoc] at even
    omega
  have halves := eq_mul_of_value_eq low value
  have halved : tradeHalves (-e).toNat m e = (k * 5 ^ t, -(t : Int)) := by
    rw [halves, show (-e).toNat = (-(t : Int) - e).toNat + t by omega, tradeHalves_even, tradeHalves_odd odd]
    · congr 1
      omega
    · exact fits.trans (by decide)
  have odd' : k * 5 ^ t % 2 = 1 := by
    rw [Nat.mul_mod, odd, Nat.pow_mod]
    norm_num
  unfold ofParts?
  rw [halved]
  dsimp only
  rw [if_neg (by omega)]
  have length : (-(t : Int)).toNat = 0 := by omega
  have scale : (- -(t : Int)).toNat = t := by omega
  have room : ¬ maxScale < t := by
    unfold maxScale
    omega
  simp only [tradeDoubles, Option.bind_eq_bind, Option.bind_some, length, tenfold, scale, if_neg room,
    dropGuard_small fits, dropZeros_odd odd', Option.pure_def]

/-- The decimal is the integer `n`, without places. -/
structure IsWhole (d : Decimal) (n : Int) : Prop where
  scale : d.scale = 0
  value : withSign d.negative d.mantissa = n

section

variable {n : Int}

theorem exists_decode_whole (exactly : IsExactly x n) :
    ∃ d, decode? x = some d ∧ (d.mantissa : ℚ) * 2 ^ d.exponent = n.natAbs ∧
      withSign d.negative n.natAbs = n := by
  obtain ⟨d, decoded, value⟩ := exactly
  have size : (d.mantissa : ℚ) * 2 ^ d.exponent = n.natAbs := by
    rw [← d.abs_value, value, ← Int.cast_abs, Int.abs_eq_natAbs, Int.cast_natCast]
  refine ⟨d, decoded, size, ?_⟩
  apply @Int.cast_injective ℚ
  rw [cast_withSign, ← size, ← value_eq_oriented, value]

theorem ofFloat?_of_decode {d : Dyadic} (decoded : decode? x = some d) (nonzero : d.mantissa ≠ 0) :
    ofFloat? x = ofParts? d.negative d.mantissa d.exponent := by
  unfold ofFloat?
  rw [decoded]
  exact if_neg nonzero

theorem ofFloat?_whole (exactly : IsExactly x n) (fits : n.natAbs < limit) :
    ∃ d, ofFloat? x = some d ∧ IsWhole d n := by
  obtain ⟨d, decoded, size, sign⟩ := exists_decode_whole exactly
  refine ⟨⟨n.natAbs, 0, d.negative⟩, ?_, rfl, sign⟩
  by_cases zero : d.mantissa = 0
  · rw [zero, Nat.cast_zero, zero_mul, eq_comm, Nat.cast_eq_zero] at size
    unfold ofFloat?
    rw [decoded, size]
    exact if_pos zero
  · rw [ofFloat?_of_decode decoded zero]
    exact ofParts?_whole size fits

theorem ofFloat?_exceeds (exactly : IsExactly x n) (exceeds : limit ≤ n.natAbs) : ofFloat? x = none := by
  obtain ⟨d, decoded, size, -⟩ := exists_decode_whole exactly
  have small : d.mantissa < limit := (decode_range decoded).1.trans (by decide)
  have nonzero : d.mantissa ≠ 0 := by
    intro zero
    rw [zero, Nat.cast_zero, zero_mul, eq_comm, Nat.cast_eq_zero] at size
    rw [size] at exceeds
    exact absurd exceeds (by decide)
  rw [ofFloat?_of_decode decoded nonzero]
  exact ofParts?_exceeds size small exceeds

end

/-! ### Sums -/

theorem settle_whole (fits : m < limit) : settle m 0 0 = some (m, 0) := by
  have kept : roundHalfEven m (tenTo 0) = m := by
    have exact := roundHalfEven_exact Nat.one_pos m
    rwa [Nat.mul_one] at exact
  show (if roundHalfEven m (tenTo 0) < limit then _ else _) = _
  rw [kept, if_pos fits]

theorem signed_whole {d : Decimal} {n : Int} (whole : IsWhole d n) : d.signed 0 = n := by
  rw [Decimal.signed, Nat.zero_sub, ← whole.value]
  exact congrArg (withSign d.negative) (Nat.mul_one _)

theorem eq_zero_of_whole {d : Decimal} {n : Int} (whole : IsWhole d n) (zero : d.mantissa = 0) : n = 0 := by
  rw [← whole.value, zero]
  cases d.negative <;> rfl

theorem add?_whole {a b : Decimal} {n k : Int} (left : IsWhole a n) (right : IsWhole b k)
    (fits : (n + k).natAbs < limit) : ∃ d, a.add? b = some d ∧ IsWhole d (n + k) := by
  unfold add?
  split
  · rename_i zero
    rw [eq_zero_of_whole left zero, Int.zero_add]
    exact ⟨b, rfl, right⟩
  split
  · rename_i zero
    rw [eq_zero_of_whole right zero, Int.add_zero]
    exact ⟨a, rfl, left⟩
  dsimp only
  rw [left.scale, right.scale, Nat.max_self, signed_whole left, signed_whole right, settle_whole fits]
  exact ⟨_, rfl, rfl, withSign_natAbs (n + k)⟩

/-- One more integer leaves a whole total whole and exact. -/
theorem step_whole {d : Decimal} {n k : Int} (whole : IsWhole d n) (exactly : IsExactly x k)
    (fits : n.natAbs + k.natAbs < limit) :
    ∃ d', (ofFloat? x).bind d.add? = some d' ∧ IsWhole d' (n + k) := by
  have near := Int.natAbs_add_le n k
  obtain ⟨next, converted, whole'⟩ := ofFloat?_whole exactly (by omega)
  rw [converted, Option.bind_some]
  exact add?_whole whole whole' (by omega)

theorem foldlM_whole {xs : List Float} {ns : List Int} {d : Decimal} {n : Int}
    (listed : List.Forall₂ (fun x k => IsExactly x (k : Int)) xs ns) (whole : IsWhole d n)
    (fits : n.natAbs + (ns.map Int.natAbs).sum < limit) :
    ∃ d', xs.foldlM (fun total x => (ofFloat? x).bind total.add?) d = some d' ∧ IsWhole d' (n + ns.sum) := by
  induction listed generalizing d n with
  | nil =>
    rw [List.sum_nil, Int.add_zero]
    exact ⟨d, rfl, whole⟩
  | @cons x k xs ns exactly rest ih =>
    rw [List.map_cons, List.sum_cons] at fits
    have near := Int.natAbs_add_le n k
    obtain ⟨total, added, running⟩ := step_whole whole exactly (by omega)
    obtain ⟨d', folded, final⟩ := ih running (by omega)
    refine ⟨d', ?_, ?_⟩
    · rw [List.foldlM_cons, added]
      exact folded
    · rwa [List.sum_cons, ← Int.add_assoc]

theorem sum?_whole {xs : List Float} {ns : List Int}
    (listed : List.Forall₂ (fun x k => IsExactly x (k : Int)) xs ns)
    (fits : (ns.map Int.natAbs).sum < limit) : ∃ d, sum? xs = some d ∧ IsWhole d ns.sum := by
  have start : IsWhole zero 0 := ⟨rfl, rfl⟩
  obtain ⟨d, folded, whole⟩ := foldlM_whole listed start (by simpa using fits)
  rw [Int.zero_add] at whole
  exact ⟨d, folded, whole⟩

/-! ### Back to binary numbers -/

theorem isExactly_ofNat (number : Representable m) : IsExactly (ofNat m) m := by
  have exact := @isExactly_nearest m 1 Nat.one_pos
  rw [Nat.cast_one, div_one] at exact
  exact exact number

theorem isExactly_negateIf {r : ℚ} (exactly : IsExactly x r) :
    IsExactly (negateIf negative x) (oriented negative r) := by
  unfold negateIf oriented
  split
  · exact exactly.neg
  · exact exactly

theorem isExactly_toFloat_whole {d : Decimal} {n : Int} (whole : IsWhole d n) (number : Representable n) :
    IsExactly d.toFloat n := by
  unfold toFloat
  split
  · rename_i zero
    rw [eq_zero_of_whole whole zero, Int.cast_zero]
    exact isExactly_zero_iff.mpr (.inl rfl)
  rw [if_pos whole.scale]
  rw [← whole.value, cast_withSign] at number ⊢
  refine isExactly_negateIf (isExactly_ofNat ?_)
  unfold oriented at number
  split at number
  · exact neg_neg (d.mantissa : ℚ) ▸ number.neg
  · exact number

theorem toFloat_whole {d : Decimal} {n : Int} (whole : IsWhole d n) (small : n.natAbs ≤ 2 * hiddenBit) :
    d.toFloat = ofInt n := by
  have exact : IsExactly (ofInt n) n := isExactly_of_toInt? (toInt?_ofInt small)
  by_cases zero : n = 0
  · have mantissa : d.mantissa = 0 := by
      rw [← natAbs_withSign d.negative d.mantissa, whole.value, zero, Int.natAbs_zero]
    rw [toFloat, if_pos mantissa, zero]
    rfl
  · exact (isExactly_toFloat_whole whole ⟨_, exact⟩).eq exact (Int.cast_ne_zero.mpr zero)

end Number.Decimal

namespace Summary

variable {cells arranged : List Cell} {ns : List Int}

/-- The value is a number that is exactly the integer. -/
def IsInteger (v : Value) (n : Int) : Prop := ∃ x, v = .number x ∧ Number.IsExactly x n

theorem exists_numbers_of_integers {values : List Value} (integers : List.Forall₂ IsInteger values ns) :
    ∃ xs : List Float, values = xs.map .number ∧
      List.Forall₂ (fun x k => Number.IsExactly x (k : Int)) xs ns := by
  induction integers with
  | nil => exact ⟨[], rfl, .nil⟩
  | cons integer rest ih =>
    obtain ⟨x, rfl, exactly⟩ := integer
    obtain ⟨xs, rfl, listed⟩ := ih
    exact ⟨x :: xs, rfl, .cons exactly listed⟩

/-- Integers whose sizes sum to less than `2^96` have an exact sum in every order, also where partial
sums are too large to be numbers. -/
theorem integer_sums_exact (integers : List.Forall₂ IsInteger (valuesOf cells) ns) (filled : ns ≠ [])
    (bounded : (ns.map Int.natAbs).sum < 2 ^ 96) (small : ns.sum.natAbs ≤ 2 ^ 53)
    (perm : arranged.Perm cells) :
    sum.reduce arranged = .ok (some (.number (Number.ofInt ns.sum))) ∧
    Number.IsExactly (Number.ofInt ns.sum) ns.sum := by
  have exact : Number.IsExactly (Number.ofInt ns.sum) ns.sum :=
    Number.isExactly_of_toInt? (Number.toInt?_ofInt small)
  refine ⟨?_, exact⟩
  obtain ⟨ms, integers, perm⟩ := List.perm_comp_forall₂ (perm.filterMap id) integers
  obtain ⟨xs, shape, listed⟩ := exists_numbers_of_integers integers
  rw [← (perm.map Int.natAbs).sum_eq] at bounded
  rw [← perm.sum_eq] at small exact ⊢
  obtain ⟨d, summed, whole⟩ := Number.Decimal.sum?_whole listed bounded
  have filled : xs ≠ [] := by
    rintro rfl
    cases listed
    exact filled perm.nil_eq.symm
  have result : total xs = Number.ofInt ms.sum := by
    rw [total, summed]
    exact Number.Decimal.toFloat_whole whole small
  rw [Computes.sum.reduce_numbers shape filled, result, Cell.finite,
    if_pos (Number.isFinite_of_decode exact.choose_spec.1)]

/-- In binary arithmetic the one is lost beside the large numbers. -/
def towers : List Cell :=
  [some (.number 9007199254740992), some (.number 1), none, some (.number 9007199254740992),
    some (.number (-9007199254740992)), some (.number (-9007199254740992))]

theorem integer_sums_exact_towers :
    sum.reduce towers = .ok (some (.number 1)) ∧ sum.reduce towers.reverse = .ok (some (.number 1)) := by
  have integer {x : Float} {n : Int} (whole : Number.toInt? x = some n) : IsInteger (.number x) n :=
    ⟨x, rfl, Number.isExactly_of_toInt? whole⟩
  have one : IsInteger (.number 1) 1 := integer (by decide +kernel)
  have high : IsInteger (.number 9007199254740992) (2 ^ 53) := integer (by decide +kernel)
  have low : IsInteger (.number (-9007199254740992)) (-2 ^ 53) := integer (by decide +kernel)
  have integers : List.Forall₂ IsInteger (valuesOf towers) [2 ^ 53, 1, 2 ^ 53, -2 ^ 53, -2 ^ 53] :=
    .cons high (.cons one (.cons high (.cons low (.cons low .nil))))
  have each {arranged : List Cell} (perm : arranged.Perm towers) :=
    (integer_sums_exact integers (by decide) (by decide) (by decide) perm).1
  exact ⟨each (.refl _), each (List.reverse_perm _)⟩

end Summary

end Tableflow
