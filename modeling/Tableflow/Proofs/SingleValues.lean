import Mathlib
import Tableflow.Proofs.DecimalSums

/-!
Columns with one value. Sum and mean are the value where it is an integer or a decimal fraction with
a small numerator, and then variance and standard deviation are zero. Every other number is rounded
to a decimal first.
-/

namespace Tableflow

namespace Number

namespace Decimal

variable {x p b : Float} {negative : Bool} {m n k t i j : Nat}

/-! ### Decimal places in binary arithmetic -/

theorem representable_whole (small : m ≤ 2 * hiddenBit) : Representable m := by
  have number := @representable_dyadic m 0 small (by decide) (by decide)
  rwa [zpow_zero, mul_one] at number

theorem representable_power (small : t ≤ 22) : Representable (10 ^ t) := by
  have fits : 5 ^ t ≤ 2 * hiddenBit := (Nat.pow_le_pow_right (by decide) small).trans (by decide)
  have number := @representable_dyadic (5 ^ t) t fits (by omega) (by omega)
  rw [Nat.cast_pow, zpow_natCast, Nat.cast_ofNat, ← mul_pow] at number
  norm_num at number
  exact number

theorem isExactly_mul_power (left : IsExactly p (10 ^ i)) (right : IsExactly b (10 ^ j))
    (small : i + j ≤ 22) : IsExactly (p * b) (10 ^ (i + j)) := by
  have number := representable_power small
  rw [pow_add] at number ⊢
  exact left.mul right number (by positivity)

theorem isExactly_squaring (product : IsExactly p (10 ^ i)) (base : IsExactly b (10 ^ j))
    (small : i + j * n ≤ 22) : IsExactly (squaring p b n) (10 ^ (i + j * n)) := by
  induction n using Nat.strong_induction_on generalizing p b i j with
  | _ n ih =>
    have halved : j * n = j * (n % 2) + (j + j) * (n / 2) := by
      nth_rewrite 1 [← Nat.mod_add_div n 2]
      ring
    have odd : IsExactly (if n % 2 = 1 then p * b else p) (10 ^ (i + j * (n % 2))) := by
      split
      · rename_i one
        rw [one, Nat.mul_one] at halved ⊢
        exact isExactly_mul_power product base (by omega)
      · rwa [show n % 2 = 0 by omega, Nat.mul_zero, Nat.add_zero]
    rw [squaring]
    split
    · rename_i last
      rwa [halved, last, Nat.mul_zero, Nat.add_zero]
    · rename_i more
      have room := Nat.le_mul_of_pos_right (j + j) (Nat.pos_of_ne_zero more)
      have squared := isExactly_mul_power base base (show j + j ≤ 22 by omega)
      rw [halved, ← Nat.add_assoc]
      exact ih (n / 2) (by omega) odd squared (by omega)

theorem isExactly_roundHalfUp (exactly : IsExactly x m) : IsExactly (roundHalfUp x) m := by
  have whole : IsExactly x (m : Int) := exactly
  obtain ⟨d, decoded, size, -⟩ := exists_decode_whole whole
  unfold roundHalfUp
  rw [decoded]
  dsimp only
  split
  · exact exactly
  · rename_i below
    rw [Int.natAbs_natCast, ← mul_one (m : ℚ), ← zpow_zero (2 : ℚ)] at size
    have mantissa := eq_mul_of_value_eq (by omega) size
    rw [zero_sub] at mantissa
    have rounded : (2 * d.mantissa + twoTo (-d.exponent).toNat) / (2 * twoTo (-d.exponent).toNat) = m := by
      show (2 * d.mantissa + 2 ^ (-d.exponent).toNat) / (2 * 2 ^ (-d.exponent).toNat) = m
      rw [mantissa, ← Nat.mul_assoc, ← Nat.succ_mul, Nat.mul_div_mul_right _ _ (Nat.two_pow_pos _)]
      omega
    rw [rounded]
    exact isExactly_ofNat ⟨x, exactly⟩

section

variable (odd : k % 2 = 1) (some : 0 < t) (fits : k * 5 ^ t < hiddenBit)

include odd some

theorem mod_two_pow_pos : 0 < k % 2 ^ t := by
  have even : 2 ∣ 2 ^ t := dvd_pow_self 2 some.ne'
  have parity := Nat.mod_mod_of_dvd k even
  omega

include fits

theorem isExactly_fraction :
    IsExactly (ofNat (k * 5 ^ t % tenTo t) / ofNat (tenTo t)) ((k % 2 ^ t : Nat) * 2 ^ (-(t : Int))) := by
  have places := places_le (by omega) fits
  have positive := mod_two_pow_pos odd some
  have less : k % 2 ^ t ≤ k := Nat.mod_le _ _
  have fives : 0 < 5 ^ t := Nat.pow_pos (by decide)
  have unit : tenTo t = 2 ^ t * 5 ^ t := Nat.mul_pow 2 5 t
  have digits : k * 5 ^ t % tenTo t = k % 2 ^ t * 5 ^ t := by rw [unit, Nat.mul_mod_mul_right]
  have ratio : ((k % 2 ^ t * 5 ^ t : Nat) : ℚ) / (tenTo t : Nat) = (k % 2 ^ t : Nat) * 2 ^ (-(t : Int)) := by
    rw [unit, Nat.cast_mul, Nat.cast_mul, mul_div_mul_right _ _ (Nat.cast_ne_zero.mpr fives.ne'),
      zpow_neg, zpow_natCast, Nat.cast_pow, Nat.cast_ofNat, div_eq_mul_inv]
  have numerator : Representable (k % 2 ^ t * 5 ^ t : Nat) := by
    refine representable_whole ?_
    have := Nat.mul_le_mul_right (5 ^ t) less
    omega
  have denominator : Representable (tenTo t : Nat) := by
    have number := representable_power places
    rwa [← Nat.cast_ofNat, ← Nat.cast_pow] at number
  have quotient : Representable ((k % 2 ^ t : Nat) * 2 ^ (-(t : Int))) := by
    refine representable_dyadic ?_ (by omega) (by omega)
    have := Nat.le_mul_of_pos_right k fives
    omega
  rw [digits, ← ratio] at *
  refine (isExactly_ofNat numerator).div (isExactly_ofNat denominator) quotient (div_ne_zero ?_ ?_)
  · exact Nat.cast_ne_zero.mpr (Nat.mul_pos positive fives).ne'
  · exact Nat.cast_ne_zero.mpr (tenTo_pos t).ne'

theorem isExactly_toFloat_places :
    IsExactly (toFloat ⟨k * 5 ^ t, t, negative⟩) (oriented negative (k * 2 ^ (-(t : Int)))) := by
  have places := places_le (by omega) fits
  have fives : 0 < 5 ^ t := Nat.pow_pos (by decide)
  have positive : 0 < k := by omega
  have small : k ≤ 2 * hiddenBit := by
    have := Nat.le_mul_of_pos_right k fives
    omega
  have number : Representable (k * 2 ^ (-(t : Int))) := representable_dyadic small (by omega) (by omega)
  have fraction := isExactly_fraction odd some fits
  have whole : IsExactly (ofNat (k * 5 ^ t / tenTo t)) (k / 2 ^ t : Nat) := by
    rw [show tenTo t = 2 ^ t * 5 ^ t from Nat.mul_pow 2 5 t, Nat.mul_div_mul_right _ _ fives]
    exact isExactly_ofNat (representable_whole ((Nat.div_le_self _ _).trans small))
  have nonzero : (k : ℚ) * 2 ^ (-(t : Int)) ≠ 0 := by positivity
  have split : ((k / 2 ^ t : Nat) : ℚ) + (k % 2 ^ t : Nat) * 2 ^ (-(t : Int)) = k * 2 ^ (-(t : Int)) := by
    have parts : (2 : ℚ) ^ t * (k / 2 ^ t : Nat) + (k % 2 ^ t : Nat) = k := by
      exact_mod_cast Nat.div_add_mod k (2 ^ t)
    rw [zpow_neg, zpow_natCast, ← parts, add_mul, mul_comm (2 ^ t : ℚ), mul_inv_cancel_right₀]
    positivity
  have scaled : (k : ℚ) * 2 ^ (-(t : Int)) * 10 ^ t = (k * 5 ^ t : Nat) := by
    rw [show (10 : ℚ) = 2 * 5 by norm_num, mul_pow, zpow_neg, zpow_natCast, ← mul_assoc, inv_mul_cancel_right₀,
      Nat.cast_mul, Nat.cast_pow, Nat.cast_ofNat]
    positivity
  have power : IsExactly (squaring 1 10 t) (10 ^ t) := by
    have one : IsExactly 1 (10 ^ 0) := @isExactly_of_toInt? 1 1 (by decide +kernel)
    have ten : IsExactly 10 (10 ^ 1) := @isExactly_of_toInt? 10 10 (by decide +kernel)
    have squared := isExactly_squaring one ten (show 0 + 1 * t ≤ 22 by omega)
    rwa [Nat.zero_add, Nat.one_mul] at squared
  have apart : ¬ (ofNat (k * 5 ^ t % tenTo t) / ofNat (tenTo t) == 0) = true := by
    rw [beq_zero_iff, ← isExactly_zero_iff]
    intro zero
    have vanishes := fraction.unique zero
    have positive := mod_two_pow_pos odd some
    have := mul_pos (Nat.cast_pos.mpr positive) (zpow_pos (two_pos (α := ℚ)) (-(t : Int)))
    exact this.ne' vanishes
  have sum := whole.add fraction (split ▸ number) (split ▸ nonzero)
  rw [split] at sum
  have product := sum.mul power (scaled ▸ representable_whole (by omega)) (by positivity)
  rw [scaled] at product
  have back : ((k * 5 ^ t : Nat) : ℚ) / 10 ^ t = k * 2 ^ (-(t : Int)) := by
    rw [← scaled, mul_div_cancel_right₀]
    positivity
  have quotient := (isExactly_roundHalfUp product).div power (back ▸ number) (back ▸ nonzero)
  rw [back] at quotient
  unfold toFloat
  dsimp only
  rw [if_neg (Nat.mul_pos positive fives).ne', if_neg some.ne', if_neg apart]
  exact isExactly_negateIf quotient

end

end Decimal

/-! ### Short numbers -/

variable {x y : Float} {r : ℚ} {k s t : Nat} {n : Int}

/-- An integer, or a decimal fraction with a numerator below `2^52`. -/
def IsShort (x : Float) : Prop :=
  ∃ (n : Int) (s : Nat), IsExactly x (n / 10 ^ s) ∧ (s = 0 ∨ n.natAbs < hiddenBit)

/-- In lowest terms there are no more places and no greater numerator. -/
theorem numerator_le (odd : k % 2 = 1) (same : k * 10 ^ s = n.natAbs * 2 ^ t) : k * 5 ^ t ≤ n.natAbs := by
  have tens : 10 ^ s = 5 ^ s * 2 ^ s := Nat.mul_pow 5 2 s
  have fewer : t ≤ s := by
    have odd' : Odd (k * 5 ^ s) := (Nat.odd_iff.mpr odd).mul (Odd.pow (by decide))
    have coprime : Nat.Coprime (2 ^ t) (k * 5 ^ s) := (Nat.coprime_two_left.mpr odd').pow_left t
    have divides : 2 ^ t ∣ k * 5 ^ s * 2 ^ s := by
      rw [Nat.mul_assoc, ← tens, same]
      exact Nat.dvd_mul_left _ _
    exact (Nat.pow_dvd_pow_iff_le_right (by decide)).mp (coprime.dvd_of_dvd_mul_left divides)
  refine Nat.le_of_mul_le_mul_right ?_ (Nat.two_pow_pos t)
  rw [← same, Nat.mul_assoc, ← Nat.mul_pow]
  exact Nat.mul_le_mul_left k (Nat.pow_le_pow_right (by decide) fewer)

theorem IsShort.cases (short : IsShort x) : (∃ n : Int, IsExactly x n) ∨
    ∃ (d : Dyadic) (k t : Nat), decode? x = some d ∧ k % 2 = 1 ∧ 0 < t ∧
      (d.mantissa : ℚ) * 2 ^ d.exponent = k * 2 ^ (-(t : Int)) ∧ k * 5 ^ t < hiddenBit := by
  obtain ⟨n, s, exactly, rfl | bound⟩ := short
  · rw [pow_zero, div_one] at exactly
    exact .inl ⟨n, exactly⟩
  obtain ⟨d, decoded, value⟩ := exactly
  by_cases zero : d.mantissa = 0
  · refine .inl ⟨0, ?_⟩
    rw [Int.cast_zero, isExactly_zero_iff]
    exact (mantissa_eq_zero_iff decoded).mp zero
  obtain ⟨a, k, odd, mantissa⟩ := Nat.exists_eq_two_pow_mul_odd zero
  have size : (d.mantissa : ℚ) * 2 ^ d.exponent = k * 2 ^ (a + d.exponent) := by
    rw [mantissa, Nat.cast_mul, Nat.cast_pow, Nat.cast_ofNat, zpow_add₀ two_ne_zero, zpow_natCast]
    ring
  rcases le_or_gt 0 (a + d.exponent) with whole | places
  · have shifted := value_shift whole k
    rw [zpow_zero, mul_one, sub_zero, ← size] at shifted
    refine .inl ⟨withSign d.negative (k * 2 ^ (a + d.exponent).toNat), d, decoded, ?_⟩
    rw [value_eq_oriented, cast_withSign, shifted]
  · generalize places_eq : (-(a + d.exponent)).toNat = t
    have place : a + d.exponent = -(t : Int) := by omega
    have same : k * 10 ^ s = n.natAbs * 2 ^ t := by
      have sizes := d.abs_value
      rw [value, size, place, abs_div, ← Int.cast_abs, Int.abs_eq_natAbs, Int.cast_natCast,
        abs_of_pos (by positivity), zpow_neg, zpow_natCast, ← div_eq_mul_inv,
        div_eq_div_iff (by positivity) (by positivity)] at sizes
      exact_mod_cast sizes.symm
    have odd := Nat.odd_iff.mp odd
    exact .inr ⟨d, k, t, decoded, odd, by omega, place ▸ size, (numerator_le odd same).trans_lt bound⟩

/-- The decimal of a short number has its value, and only large integers have none. -/
theorem IsShort.toFloat (short : IsShort x) (exactly : IsExactly x r) {d : Decimal}
    (converted : Decimal.ofFloat? x = some d) : IsExactly d.toFloat r := by
  rcases short.cases with ⟨n, whole⟩ | ⟨parts, k, t, decoded, odd, positive, size, fits⟩
  · obtain rfl := exactly.unique whole
    by_cases below : n.natAbs < Decimal.limit
    · obtain ⟨d', converted', whole'⟩ := Decimal.ofFloat?_whole whole below
      obtain rfl := Option.some.inj (converted.symm.trans converted')
      exact Decimal.isExactly_toFloat_whole whole' ⟨x, whole⟩
    · rw [Decimal.ofFloat?_exceeds whole (Nat.not_lt.mp below)] at converted
      cases converted
  · have nonzero : parts.mantissa ≠ 0 := by
      intro zero
      rw [zero, Nat.cast_zero, zero_mul, eq_comm, mul_eq_zero, Nat.cast_eq_zero] at size
      have := size.resolve_right (zpow_ne_zero _ two_ne_zero)
      omega
    have places : Decimal.ofFloat? x = some ⟨k * 5 ^ t, t, parts.negative⟩ := by
      rw [Decimal.ofFloat?_of_decode decoded nonzero, Decimal.ofParts?_places odd size fits]
    obtain rfl := Option.some.inj (converted.symm.trans places)
    have back := @Decimal.isExactly_toFloat_places parts.negative k t odd positive fits
    have value : r = oriented parts.negative (k * 2 ^ (-(t : Int))) := by
      rw [exactly.unique ⟨parts, decoded, rfl⟩, value_eq_oriented, size]
    rwa [value]

end Number

/-! ### Summaries of one value -/

namespace Summary

open Number

variable {x : Float} {cells : List Cell}

theorem sum?_single (x : Float) : Number.Decimal.sum? [x] = Number.Decimal.ofFloat? x := by
  rw [Number.Decimal.sum?, List.foldlM_cons]
  cases Number.Decimal.ofFloat? x <;> rfl

theorem toFloat_divide_one (d : Number.Decimal) : (d.divide 1).toFloat = d.toFloat := by
  unfold Number.Decimal.divide
  split
  · rename_i zero
    exact (if_pos zero).symm
  · rw [if_pos (Nat.mod_one _), Nat.div_one]

theorem plainSum_single (finite : x.isFinite = true) : plainSum [x] = x := by
  refine @eq_self_of_exact x (fun x => plainSum [x]) (by decide +kernel) (by decide +kernel) finite ?_
  intro r nonzero exactly
  have start : IsExactly (-0.0) 0 := isExactly_zero_iff.mpr (by decide +kernel)
  have sum := start.add exactly
  rw [zero_add] at sum
  exact sum ⟨x, exactly⟩ nonzero

theorem div_one_eq (finite : x.isFinite = true) : x / Number.ofNat 1 = x := by
  refine @eq_self_of_exact x (fun x => x / Number.ofNat 1) (by decide +kernel) (by decide +kernel) finite ?_
  intro r nonzero exactly
  have one : IsExactly (Number.ofNat 1) 1 := @isExactly_of_toInt? _ 1 (by decide +kernel)
  have quotient := exactly.div one
  rw [div_one] at quotient
  exact quotient ⟨x, exactly⟩ nonzero

theorem average_single (finite : x.isFinite = true) : average [x] = total [x] := by
  unfold average total
  rw [sum?_single]
  cases Number.Decimal.ofFloat? x with
  | none =>
    show plainSum [x] / Number.ofNat 1 = plainSum [x]
    rw [plainSum_single finite, div_one_eq finite]
  | some d => exact toFloat_divide_one d

theorem total_single (finite : x.isFinite = true) (short : IsShort x) : total [x] = unsigned x := by
  obtain ⟨r, exactly⟩ := exists_isExactly finite
  by_cases zero : r = 0
  · subst zero
    obtain rfl | rfl := isExactly_zero_iff.mp exactly <;> decide +kernel
  · have signless : x ≠ -0 := fun minus => zero (exactly.unique (isExactly_zero_iff.mpr (.inr minus)))
    rw [unsigned_eq_self signless]
    unfold total
    rw [sum?_single]
    cases converted : Number.Decimal.ofFloat? x with
    | none => exact plainSum_single finite
    | some d => exact (short.toFloat exactly converted).eq exactly zero

/-- A value has no spread around itself. -/
theorem spread_single (finite : x.isFinite = true) (equal : (total [x] == x) = true) : spread [x] = 0 := by
  have square : (x - total [x]) * (x - total [x]) = 0 := by
    obtain ⟨-, -, same | ⟨plus, minus⟩ | ⟨minus, plus⟩⟩ := Float.beq_iff_ne_nan_and_eq.mp equal
    · rw [same, sub_self_exact finite]
      decide +kernel
    · rw [plus, minus]
      decide +kernel
    · rw [minus, plus]
      decide +kernel
  show plainSum [(x - average [x]) * (x - average [x])] / Number.ofNat 1 = 0
  rw [average_single finite, square]
  decide +kernel

/-- A short value is its own sum and mean, up to the sign of zero, and has no variance. Sum and mean
of any other value agree too, and the variance is zero wherever they are equal to the value. -/
theorem single_value_summaries (finite : x.isFinite = true) (single : valuesOf cells = [.number x]) :
    (IsShort x →
      sum.reduce cells = .ok (some (.number (unsigned x))) ∧
      mean.reduce cells = .ok (some (.number (unsigned x))) ∧
      variance.reduce cells = .ok (some (.number 0)) ∧ stdDev.reduce cells = .ok (some (.number 0))) ∧
    sum.reduce cells = mean.reduce cells ∧
    ∀ y, (y == x) = true → mean.reduce cells = .ok (some (.number y)) →
      variance.reduce cells = .ok (some (.number 0)) ∧ stdDev.reduce cells = .ok (some (.number 0)) := by
  have shape : valuesOf cells = [x].map .number := single
  have each {s : Summary} {f : List Float → Float} (computes : Computes s f) :
      s.reduce cells = .ok (Cell.finite (f [x])) := computes.reduce_numbers shape (List.cons_ne_nil _ _)
  have level (equal : (total [x] == x) = true) :
      variance.reduce cells = .ok (some (.number 0)) ∧ stdDev.reduce cells = .ok (some (.number 0)) := by
    rw [each .variance, each .stdDev, spread_single finite equal]
    exact ⟨rfl, rfl⟩
  refine ⟨fun short => ?_, ?_, fun y equal mean => level ?_⟩
  · have exact := total_single finite short
    have present : Cell.finite (unsigned x) = some (.number (unsigned x)) := if_pos (isFinite_unsigned finite)
    refine ⟨?_, ?_, level ?_⟩
    · rw [each .sum, exact, present]
    · rw [each .mean, average_single finite, exact, present]
    · rw [exact]
      exact unsigned_beq finite
  · rw [each .sum, each .mean, average_single finite]
  · rw [each .mean, average_single finite, Cell.finite] at mean
    split at mean
    · cases mean
      exact equal
    · cases mean

/-- A value between missing cells. -/
def among (x : Float) : List Cell := [none, some (.number x), none]

theorem single_value_summaries_places :
    sum.reduce (among (-123456.015625)) = .ok (some (.number (-123456.015625))) ∧
    stdDev.reduce (among (-123456.015625)) = .ok (some (.number 0)) := by
  have short : IsShort (-123456.015625) := by
    refine ⟨-123456015625, 6, ⟨⟨true, 8483832793661440, -36⟩, by decide +kernel, ?_⟩, .inr (by decide)⟩
    norm_num [Dyadic.value, withSign]
  have signless : unsigned (-123456.015625) = -123456.015625 := unsigned_eq_self (by decide +kernel)
  have finite : (-123456.015625 : Float).isFinite = true := by decide +kernel
  have single : valuesOf (among (-123456.015625)) = [.number (-123456.015625)] := rfl
  obtain ⟨summed, -, -, level⟩ := (single_value_summaries finite single).1 short
  rw [signless] at summed
  exact ⟨summed, level⟩

/-- The seventeenth digit of a number is lost, and what is left differs from the number. -/
theorem single_value_rounded :
    sum.reduce (among 0.30000000000000004) = .ok (some (.number 0.3)) ∧
    mean.reduce (among 0.30000000000000004) = .ok (some (.number 0.3)) ∧
    variance.reduce (among 0.30000000000000004) = .ok (some (.number 3.0814879110195774e-33)) ∧
    stdDev.reduce (among 0.30000000000000004) = .ok (some (.number 5.551115123125783e-17)) ∧
    ((0.3 : Float) == 0.30000000000000004) = false := by
  have each {s : Summary} {f : List Float → Float} {y : Float} (computes : Computes s f)
      (result : f [0.30000000000000004] = y) (finite : y.isFinite = true) :
      s.reduce (among 0.30000000000000004) = .ok (some (.number y)) := by
    rw [@Computes.reduce_numbers _ [0.30000000000000004] _ _ computes rfl (List.cons_ne_nil _ _), result,
      Cell.finite, if_pos finite]
  refine ⟨each .sum ?_ ?_, each .mean ?_ ?_, each .variance ?_ ?_, each .stdDev ?_ ?_, ?_⟩ <;> decide +kernel

end Summary

end Tableflow
