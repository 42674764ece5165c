import Mathlib
import Tableflow.Proofs.CorrectRounding

/-!
Arithmetic without rounding. Where a sum, a product or a quotient of two numbers is itself a number,
that number is the result. A canonical mantissa and exponent stand for one number only, and rounding
to them drops nothing but zeros.
-/

namespace Tableflow.Number

open Float.Model (Format UnpackedFloat totalExponent)
open Float.Model.UnpackedFloat

variable {x y z : Float} {a b : ℚ} {s s' : Sign} {m n : Nat} {q e : Int}

/-! ### Rounding what needs no rounding -/

/-- A mantissa of 53 bits, or of fewer at the least exponent. -/
structure Canonical (m : Nat) (q : Int) : Prop where
  positive : 0 < m
  small : m < 2 * hiddenBit
  least : -1074 ≤ q
  full : q = -1074 ∨ hiddenBit ≤ m

theorem eq_mul_of_value_eq (low : e ≤ q) (same : (n : ℚ) * 2 ^ e = m * 2 ^ q) :
    n = m * 2 ^ (q - e).toNat := by
  rw [← value_shift low] at same
  exact Nat.cast_injective (mul_right_cancel₀ (zpow_ne_zero e two_ne_zero) same)

theorem totalExponent_eq_of_le (positive : 0 < m) (low : e ≤ q) (same : (n : ℚ) * 2 ^ e = m * 2 ^ q) :
    totalExponent n e = totalExponent m q := by
  have leading : (m * 2 ^ (q - e).toNat).log2 = m.log2 + (q - e).toNat := by
    rw [Nat.log2_eq_iff (Nat.mul_pos positive (Nat.two_pow_pos _)).ne', pow_add, add_right_comm, pow_add]
    exact ⟨Nat.mul_le_mul_right _ (Nat.log2_self_le positive.ne'),
      Nat.mul_lt_mul_of_pos_right Nat.lt_log2_self (Nat.two_pow_pos _)⟩
  rw [eq_mul_of_value_eq low same, totalExponent, totalExponent, leading]
  omega

/-- The leading bit of a value does not depend on how it is written. -/
theorem totalExponent_eq (positive : 0 < m) (same : (n : ℚ) * 2 ^ e = m * 2 ^ q) :
    totalExponent n e = totalExponent m q := by
  rcases le_total e q with low | low
  · exact totalExponent_eq_of_le positive low same
  · have positive' : 0 < n := by
      refine Nat.pos_of_ne_zero ?_
      rintro rfl
      rw [Nat.cast_zero, zero_mul, eq_comm, mul_eq_zero, Nat.cast_eq_zero] at same
      exact same.elim positive.ne' (zpow_ne_zero q two_ne_zero)
    exact (totalExponent_eq_of_le positive' low same.symm).symm

namespace Canonical

variable (canonical : Canonical m q) (same : (n : ℚ) * 2 ^ e = m * 2 ^ q)

include canonical same

theorem targetExponent : Format.binary64.targetExponent (totalExponent n e) = q := by
  rw [totalExponent_eq canonical.positive same]
  obtain ⟨positive, small, least, full⟩ := canonical
  have bits : m.log2 ≤ 52 := Nat.lt_succ_iff.mp ((Nat.log2_lt positive.ne').mpr small)
  have leading : 2 ^ 52 ≤ m → 52 ≤ m.log2 := (Nat.le_log2 positive.ne').mpr
  change q = -1074 ∨ 2 ^ 52 ≤ m at full
  show max (m.log2 + 1 + q - 53) (-1074) = q
  omega

omit canonical same in
theorem shiftRight_exact (m k : Nat) :
    (⟨m * 2 ^ k, false, false⟩ : ExtendedMantissa) >>> k = ⟨m, false, false⟩ := by
  show k.repeat ExtendedMantissa.shiftRightOne _ = _
  induction k generalizing m with
  | zero => simp [Nat.repeat]
  | succ k ih =>
    rw [Nat.repeat, pow_succ', ← mul_assoc, ih]
    simp [ExtendedMantissa.shiftRightOne]

theorem shift (low : e ≤ q) :
    shiftToTargetExponent Format.binary64 n e .exact = (⟨m, false, false⟩, q) := by
  unfold shiftToTargetExponent shiftToExponent
  rw [canonical.targetExponent same]
  dsimp only
  rw [ExtendedMantissa.ofMantissaAndAccuracy, eq_mul_of_value_eq low same, shiftRight_exact,
    Int.toNat_of_nonneg (by omega), add_sub_cancel]

theorem roundWithAccuracy_eq (low : e ≤ q) :
    roundWithAccuracy Format.binary64 s n e .exact = .finite s m q canonical.positive := by
  unfold roundWithAccuracy
  rw [canonical.shift same low]
  dsimp only [ExtendedMantissa.roundedMantissa, ExtendedMantissa.accuracy, Accuracy.roundToNearestEven]
  rw [canonical.shift rfl le_rfl]
  exact dif_neg canonical.positive.ne'

theorem round_eq :
    UnpackedFloat.round Format.binary64 s n e = .finite s m q canonical.positive := by
  unfold UnpackedFloat.round decreaseExponent
  rw [canonical.targetExponent same]
  refine canonical.roundWithAccuracy_eq ?_ (by omega)
  rw [← same, Nat.shiftLeft_eq, Nat.cast_mul, Nat.cast_pow, Nat.cast_ofNat, mul_assoc, ← zpow_natCast,
    ← zpow_add₀ two_ne_zero, add_sub_cancel]

end Canonical

/-! ### Parts of a number -/

theorem bits_of_position (positive : 0 < n) (place : position x = signed s n) :
    x.toBits.toNat = signBit (s == .negative) + n := by
  unfold position at place
  dsimp only at place
  cases s with
  | negative =>
    show _ = signWeight + n
    simp only [signed] at place
    split at place <;> omega
  | positive =>
    show _ = 0 + n
    simp only [signed] at place
    split at place <;> omega

/-- What is taken apart into a mantissa and an exponent has their value. -/
theorem isExactly_of_unpack {positive : 0 < m} (parts : x.toModel.unpack = .finite s m q positive) :
    Canonical m q ∧ IsExactly x (signed s m * 2 ^ q) := by
  have unpacked : Unpacks (position x) x.toModel.unpack := unpacks x
  rw [parts] at unpacked
  obtain ⟨small, least, full, finite, place⟩ := unpacked
  have high : q ≤ 971 := by
    simp only [infinityBits, hiddenBit] at *
    omega
  have bits := bits_of_position (by omega) place
  refine ⟨⟨positive, small, least, full⟩, _, decode_of_parts bits small least high full, ?_⟩
  cases s <;> rfl

theorem IsExactly.unique (exactly : IsExactly x a) (exactly' : IsExactly x b) : a = b := by
  obtain ⟨d, decoded, rfl⟩ := exactly
  obtain ⟨d', decoded', rfl⟩ := exactly'
  rw [Option.some.inj (decoded.symm.trans decoded')]

theorem eq_zero_of_unpack (parts : x.toModel.unpack = .zero s) : x = 0 ∨ x = -0 := by
  have unpacked : Unpacks (position x) x.toModel.unpack := unpacks x
  rw [parts] at unpacked
  have place : position x = position 0 := unpacked
  have number : x ≠ .nan := ne_nan_iff.mpr (by rw [place]; decide)
  rw [← beq_zero_iff, beq_iff number (ne_nan_iff.mpr (by decide)), place]

theorem isExactly_zero_iff : IsExactly x 0 ↔ x = 0 ∨ x = -0 := by
  constructor
  · rintro ⟨d, decoded, value⟩
    rw [← mantissa_eq_zero_iff decoded]
    rw [Dyadic.value, mul_eq_zero, Int.cast_eq_zero, ← Int.natAbs_eq_zero, natAbs_withSign] at value
    exact value.resolve_right (zpow_ne_zero _ two_ne_zero)
  · rintro (rfl | rfl)
    · exact ⟨⟨false, 0, -1074⟩, rfl, by simp [Dyadic.value, withSign]⟩
    · exact ⟨⟨true, 0, -1074⟩, rfl, by simp [Dyadic.value, withSign]⟩

theorem IsExactly.exists_parts (exactly : IsExactly x a) (nonzero : a ≠ 0) :
    ∃ s m q, ∃ canonical : Canonical m q, x.toModel.unpack = .finite s m q canonical.positive ∧
      (signed s m : ℚ) * 2 ^ q = a := by
  have finite : x.toModel.unpack.isFinite = true := isFinite_of_decode exactly.choose_spec.1
  cases parts : x.toModel.unpack with
  | notANumber => cases parts ▸ finite
  | infinity s => cases parts ▸ finite
  | zero s =>
    have zero := isExactly_zero_iff.mpr (eq_zero_of_unpack parts)
    exact absurd (exactly.unique zero) nonzero
  | finite s m q positive =>
    obtain ⟨canonical, value⟩ := isExactly_of_unpack parts
    exact ⟨s, m, q, canonical, rfl, value.unique exactly⟩

theorem exists_unpack_zero (exactly : IsExactly x 0) : ∃ s, x.toModel.unpack = .zero s := by
  obtain rfl | rfl := isExactly_zero_iff.mp exactly
  · exact ⟨.positive, rfl⟩
  · exact ⟨.negative, rfl⟩

theorem pack_unpack_toModel (x : Float) : Float.ofModel (.pack x.toModel.unpack) = x :=
  Float.ofBits_toBits x

theorem signed_eq (positive : 0 < m) (positive' : 0 < n)
    (same : (signed s m : ℚ) * 2 ^ q = signed s' n * 2 ^ e) : s = s' ∧ (m : ℚ) * 2 ^ q = n * 2 ^ e := by
  have above : (0 : ℚ) < m * 2 ^ q := by positivity
  have above' : (0 : ℚ) < n * 2 ^ e := by positivity
  cases s <;> cases s' <;> simp only [signed, Int.cast_neg, Int.cast_natCast, neg_mul] at same
  · exact ⟨rfl, neg_injective same⟩
  · linarith
  · linarith
  · exact ⟨rfl, same⟩

theorem signed_mul (s s' : Sign) (m n : Nat) :
    (signed (s * s') (m * n) : ℚ) = signed s m * signed s' n := by
  cases s <;> cases s'
  · show (((m * n : Nat) : Int) : ℚ) = ((-m : Int) : ℚ) * ((-n : Int) : ℚ)
    push_cast
    ring
  · show ((-(m * n : Nat) : Int) : ℚ) = ((-m : Int) : ℚ) * n
    push_cast
    ring
  · show ((-(m * n : Nat) : Int) : ℚ) = (m : ℚ) * ((-n : Int) : ℚ)
    push_cast
    ring
  · exact Nat.cast_mul m n

theorem signed_neg (s : Sign) (m : Nat) : (signed (-s) m : ℚ) = -signed s m := by
  cases s
  · exact (neg_neg (m : ℚ)).symm.trans (congrArg Neg.neg (Int.cast_neg (m : Int)).symm)
  · exact Int.cast_neg (m : Int)

theorem Dyadic.abs_value (d : Dyadic) : |d.value| = d.mantissa * 2 ^ d.exponent := by
  have unit : (0 : ℚ) < 2 ^ d.exponent := zpow_pos two_pos _
  rw [Dyadic.value, abs_mul, abs_of_pos unit, ← Int.cast_abs, Int.abs_eq_natAbs, Int.cast_natCast,
    natAbs_withSign]

/-! ### Operations -/

theorem Canonical.unique (canonical : Canonical m q) (canonical' : Canonical n e)
    (same : (n : ℚ) * 2 ^ e = m * 2 ^ q) : n = m ∧ e = q := by
  have place : e = q := (canonical'.targetExponent rfl).symm.trans (canonical.targetExponent same)
  subst place
  rw [eq_mul_of_value_eq le_rfl same]
  simp

theorem Canonical.hidden_le_mul (canonical : Canonical m q) (canonical' : Canonical n e)
    (high : -2148 < q + e) : hiddenBit ≤ m * n := by
  rcases canonical.full with rfl | full
  · rcases canonical'.full with rfl | full'
    · omega
    · exact full'.trans (Nat.le_mul_of_pos_left n canonical.positive)
  · exact full.trans (Nat.le_mul_of_pos_right m canonical'.positive)

/-- A number that is not zero is the only one of its value. -/
theorem IsExactly.eq (exactly : IsExactly x a) (exactly' : IsExactly y a) (nonzero : a ≠ 0) : x = y := by
  obtain ⟨s, m, q, canonical, parts, rfl⟩ := exactly.exists_parts nonzero
  obtain ⟨s', n, e, canonical', parts', value⟩ := exactly'.exists_parts nonzero
  obtain ⟨rfl, same⟩ := signed_eq canonical'.positive canonical.positive value
  obtain ⟨rfl, rfl⟩ := canonical.unique canonical' same
  rw [← pack_unpack_toModel x, parts, ← pack_unpack_toModel y, parts']

/-- Some number has the value `r`. -/
def Representable (r : ℚ) : Prop := ∃ x, IsExactly x r

theorem IsExactly.representable_neg (exactly : IsExactly x a) : Representable (-a) := by
  obtain ⟨d, decoded, rfl⟩ := exactly
  obtain ⟨small, least, high, full⟩ := decode_range decoded
  refine ⟨_, _, @decode_ofBits (!d.negative) d.mantissa d.exponent small least high full, ?_⟩
  cases negative : d.negative <;> simp [Dyadic.value, withSign, negative]

theorem Representable.neg (number : Representable a) : Representable (-a) :=
  number.elim fun _ exactly => exactly.representable_neg

theorem IsExactly.neg (exactly : IsExactly x a) : IsExactly (-x) (-a) := by
  by_cases zero : a = 0
  · subst zero
    rw [neg_zero, isExactly_zero_iff]
    obtain rfl | rfl := isExactly_zero_iff.mp exactly
    · exact .inr rfl
    · exact .inl rfl
  obtain ⟨z, negated⟩ := exactly.representable_neg
  suffices result : -x = z by rwa [result]
  obtain ⟨s, m, q, canonical, parts, rfl⟩ := exactly.exists_parts zero
  obtain ⟨t, k, p, canonical', parts', value⟩ := negated.exists_parts (neg_ne_zero.mpr zero)
  rw [← neg_mul, ← signed_neg] at value
  obtain ⟨rfl, same⟩ := signed_eq canonical'.positive canonical.positive value
  obtain ⟨rfl, rfl⟩ := canonical.unique canonical' same
  rw [← pack_unpack_toModel z, parts']
  show Float.ofModel (.pack x.toModel.unpack.neg) = _
  rw [parts]
  rfl

theorem IsExactly.mul (exactly : IsExactly x a) (exactly' : IsExactly y b) (number : Representable (a * b))
    (nonzero : a * b ≠ 0) : IsExactly (x * y) (a * b) := by
  obtain ⟨z, product⟩ := number
  suffices result : x * y = z by rwa [result]
  obtain ⟨s, m, q, canonical, parts, rfl⟩ := exactly.exists_parts (left_ne_zero_of_mul nonzero)
  obtain ⟨s', n, e, canonical', parts', rfl⟩ := exactly'.exists_parts (right_ne_zero_of_mul nonzero)
  obtain ⟨t, k, p, rounded, parts'', value⟩ := product.exists_parts nonzero
  rw [mul_mul_mul_comm, ← signed_mul, ← zpow_add₀ two_ne_zero] at value
  obtain ⟨rfl, same⟩ := signed_eq rounded.positive (Nat.mul_pos canonical.positive canonical'.positive) value
  -- The result has the greater exponent: the product of the mantissas has no fewer bits than either.
  have low : q + e ≤ p := by
    by_contra above
    have mantissa := eq_mul_of_value_eq (not_le.mp above).le same
    have full : hiddenBit ≤ m * n := canonical.hidden_le_mul canonical' (by have := rounded.least; omega)
    have doubled : 2 ≤ 2 ^ (q + e - p).toNat := Nat.le_self_pow (by omega) 2
    have large := Nat.mul_le_mul full doubled
    have small := rounded.small
    omega
  rw [← pack_unpack_toModel z, parts'']
  show Float.ofModel (.pack (UnpackedFloat.mul Format.binary64 x.toModel.unpack y.toModel.unpack)) = _
  rw [parts, parts']
  show Float.ofModel (.pack (roundWithAccuracy _ (s * s') (m * n) (q + e) .exact)) = _
  rw [rounded.roundWithAccuracy_eq same.symm low]

theorem log2_mul_le (positive : 0 < m) (positive' : 0 < n) : (m * n).log2 ≤ m.log2 + n.log2 + 1 := by
  rw [← Nat.lt_succ_iff, Nat.log2_lt (Nat.mul_pos positive positive').ne']
  calc m * n < 2 ^ (m.log2 + 1) * 2 ^ (n.log2 + 1) := Nat.mul_lt_mul'' Nat.lt_log2_self Nat.lt_log2_self
    _ = 2 ^ (m.log2 + n.log2 + 1).succ := by rw [← pow_add]; congr 1; omega

/-- A quotient that is a number is found without a remainder. -/
theorem divCore_eq {k : Nat} {p : Int} (rounded : Canonical k p) (positive : 0 < n)
    (same : (m : ℚ) * 2 ^ q = (k * n : Nat) * 2 ^ (p + e)) :
    ∃ t ≤ p, divCore Format.binary64 m q n e = (k * 2 ^ (p - t).toNat, t, .exact) := by
  have total := totalExponent_eq (Nat.mul_pos rounded.positive positive) same
  have leading := log2_mul_le rounded.positive positive
  have target := rounded.targetExponent rfl
  generalize shape : min (q - e) (Format.binary64.targetExponent (totalExponent m q - totalExponent n e)) = t
  have low : t ≤ p := by
    change max (totalExponent k p - 53) (-1074) = p at target
    change min (q - e) (max (totalExponent m q - totalExponent n e - 53) (-1074)) = t at shape
    unfold totalExponent at *
    omega
  have shifted : m * 2 ^ (q - e - t).toNat = k * 2 ^ (p - t).toNat * n := by
    have left := value_shift (show t + e ≤ q by omega) m
    have right := value_shift (show t + e ≤ p + e by omega) (k * n)
    rw [add_sub_add_right_eq_sub, Nat.mul_right_comm] at right
    rw [sub_sub, add_comm e]
    exact Nat.cast_injective (mul_right_cancel₀ (zpow_ne_zero _ two_ne_zero) (left.trans (same.trans right.symm)))
  refine ⟨t, low, ?_⟩
  unfold divCore
  dsimp only
  rw [shape, Nat.shiftLeft_eq, shifted, Nat.mul_div_cancel _ positive, Nat.mul_mod_left]
  rfl

theorem IsExactly.div (exactly : IsExactly x a) (exactly' : IsExactly y b) (number : Representable (a / b))
    (nonzero : a / b ≠ 0) : IsExactly (x / y) (a / b) := by
  obtain ⟨z, quotient⟩ := number
  suffices result : x / y = z by rwa [result]
  obtain ⟨left, right⟩ := div_ne_zero_iff.mp nonzero
  obtain ⟨s, m, q, canonical, parts, rfl⟩ := exactly.exists_parts left
  obtain ⟨s', n, e, canonical', parts', rfl⟩ := exactly'.exists_parts right
  obtain ⟨t, k, p, rounded, parts'', value⟩ := quotient.exists_parts nonzero
  rw [eq_div_iff right, mul_mul_mul_comm, ← signed_mul, ← zpow_add₀ two_ne_zero] at value
  obtain ⟨sign, same⟩ := signed_eq (Nat.mul_pos rounded.positive canonical'.positive) canonical.positive value
  have sign : t = s / s' := by
    rw [← sign]
    cases t <;> cases s' <;> rfl
  obtain ⟨r, low, core⟩ := divCore_eq rounded canonical'.positive same.symm
  rw [← pack_unpack_toModel z, parts'', sign]
  show Float.ofModel (.pack (UnpackedFloat.div Format.binary64 x.toModel.unpack y.toModel.unpack)) = _
  rw [parts, parts', UnpackedFloat.div, core]
  dsimp only
  rw [rounded.roundWithAccuracy_eq (value_shift low k) low]

theorem normalize_eq {t : Int} (canonical : Canonical m q) (same : (t : ℚ) * 2 ^ e = signed s m * 2 ^ q) :
    UnpackedFloat.normalize Format.binary64 t e s' = .finite s m q canonical.positive := by
  have above : (0 : ℚ) < m * 2 ^ q := mul_pos (Nat.cast_pos.mpr canonical.positive) (zpow_pos two_pos q)
  have unit : (0 : ℚ) < 2 ^ e := zpow_pos two_pos e
  unfold UnpackedFloat.normalize
  cases s with
  | negative =>
    simp only [signed, Int.cast_neg, Int.cast_natCast, neg_mul] at same
    have below : t < 0 := by
      rw [← @Int.cast_lt_zero ℚ]
      exact neg_of_mul_neg_left (same.trans_lt (neg_lt_zero.mpr above)) unit.le
    rw [compare_lt_iff_lt.mpr below]
    refine canonical.round_eq ?_
    rw [← Int.cast_natCast, Int.toNat_of_nonneg (by omega), Int.cast_neg, neg_mul, same, neg_neg]
  | positive =>
    have greater : 0 < t := by
      rw [← @Int.cast_pos ℚ]
      exact pos_of_mul_pos_left (above.trans_eq same.symm) unit.le
    rw [compare_gt_iff_gt.mpr greater]
    refine canonical.round_eq ?_
    rw [← Int.cast_natCast, Int.toNat_of_nonneg greater.le, same]
    rfl

theorem apply_decreaseExponent (s : Sign) (m : Nat) (low : e ≤ q) :
    ((s.apply (decreaseExponent m q e).1 : Int) : ℚ) * 2 ^ e = signed s m * 2 ^ q := by
  have shifted := value_shift low m
  rw [← Nat.shiftLeft_eq] at shifted
  cases s with
  | negative =>
    show ((-(m <<< (q - e).toNat : Nat) : Int) : ℚ) * 2 ^ e = ((-m : Int) : ℚ) * 2 ^ q
    rw [Int.cast_neg, Int.cast_neg, neg_mul, neg_mul, Int.cast_natCast, shifted, Int.cast_natCast]
  | positive => exact shifted

theorem IsExactly.add (exactly : IsExactly x a) (exactly' : IsExactly y b) (number : Representable (a + b))
    (nonzero : a + b ≠ 0) : IsExactly (x + y) (a + b) := by
  obtain ⟨z, sum⟩ := number
  suffices result : x + y = z by rwa [result]
  obtain ⟨t, k, p, rounded, parts'', value⟩ := sum.exists_parts nonzero
  rw [← pack_unpack_toModel z]
  show Float.ofModel (.pack (UnpackedFloat.add Format.binary64 x.toModel.unpack y.toModel.unpack)) = _
  by_cases left : a = 0
  · subst left
    rw [zero_add] at sum nonzero
    obtain ⟨r, zero⟩ := exists_unpack_zero exactly
    obtain ⟨s', n, e, canonical', parts', -⟩ := exactly'.exists_parts nonzero
    rw [← exactly'.eq sum nonzero, zero, parts']
    rfl
  by_cases right : b = 0
  · subst right
    rw [add_zero] at sum nonzero
    obtain ⟨r, zero⟩ := exists_unpack_zero exactly'
    obtain ⟨s, m, q, canonical, parts, -⟩ := exactly.exists_parts nonzero
    rw [← exactly.eq sum nonzero, zero, parts]
    rfl
  obtain ⟨s, m, q, canonical, parts, rfl⟩ := exactly.exists_parts left
  obtain ⟨s', n, e, canonical', parts', rfl⟩ := exactly'.exists_parts right
  rw [parts, parts', parts'', UnpackedFloat.add]
  dsimp only
  rw [normalize_eq rounded]
  rw [Int.cast_add, add_mul, apply_decreaseExponent s m (min_le_left q e),
    apply_decreaseExponent s' n (min_le_right q e), value]

theorem exists_isExactly (finite : x.isFinite = true) : ∃ r, IsExactly x r :=
  (exists_decode finite).elim fun d decoded => ⟨d.value, d, decoded, rfl⟩

/-- What keeps both zeros and every other value keeps all finite numbers. -/
theorem eq_self_of_exact {f : Float → Float} (plus : f 0 = 0) (minus : f (-0) = -0)
    (finite : x.isFinite = true) (exact : ∀ r ≠ 0, IsExactly x r → IsExactly (f x) r) : f x = x := by
  obtain ⟨r, exactly⟩ := exists_isExactly finite
  by_cases zero : r = 0
  · subst zero
    obtain rfl | rfl := isExactly_zero_iff.mp exactly
    · exact plus
    · exact minus
  · exact (exact r zero exactly).eq exactly zero

/-- A number taken from itself leaves zero. -/
theorem sub_self_exact (finite : x.isFinite = true) : x - x = 0 := by
  show Float.ofModel (.pack (UnpackedFloat.sub Format.binary64 x.toModel.unpack x.toModel.unpack)) = _
  have finite : x.toModel.unpack.isFinite = true := finite
  cases parts : x.toModel.unpack with
  | notANumber => cases parts ▸ finite
  | infinity s => cases parts ▸ finite
  | zero s => cases s <;> rfl
  | finite s m q positive =>
    rw [UnpackedFloat.sub]
    dsimp only
    rw [Int.sub_self]
    rfl

/-! ### Numbers with a given value -/

theorem representable_zero : Representable 0 := ⟨0, isExactly_zero_iff.mpr (.inl rfl)⟩

theorem representable_dyadic (small : n ≤ 2 * hiddenBit) (low : -1000 ≤ e) (high : e ≤ 900) :
    Representable (n * 2 ^ e) := by
  rcases Nat.eq_zero_or_pos n with rfl | positive
  · rw [Nat.cast_zero, zero_mul]
    exact representable_zero
  obtain ⟨m, q, exact, full, less, low', high'⟩ := exists_mantissa positive small
  have value : (n : ℚ) = m * 2 ^ q * (1 : Nat) := cast_of_scaled (by rw [exact, one_mul])
  rw [Nat.cast_one, mul_one] at value
  refine ⟨_, _, @decode_ofBits false m (q + e) less (by omega) (by omega) (.inr full), ?_⟩
  rw [Dyadic.value, withSign, value, mul_assoc, ← zpow_add₀ two_ne_zero]
  rfl

theorem isExactly_nearest {num den : Nat} (positive : 0 < den) (number : Representable (num / den : ℚ)) :
    IsExactly (nearest false num den) (num / den) := by
  rcases Nat.eq_zero_or_pos num with rfl | nonzero
  · rw [nearest, if_pos rfl, Nat.cast_zero, zero_div]
    exact isExactly_zero_iff.mpr (.inl rfl)
  obtain ⟨z, d, decoded, value⟩ := number
  have above : 0 < d.value := by
    rw [value]
    positivity
  have unsigned : d.negative = false := by
    by_contra negative
    have below : withSign d.negative d.mantissa ≤ 0 := by
      rw [withSign, if_pos (Bool.not_eq_false _ ▸ negative)]
      omega
    exact above.not_ge (mul_nonpos_of_nonpos_of_nonneg (Int.cast_nonpos.mpr below) (zpow_pos two_pos _).le)
  have exact : num * twoTo (-d.exponent).toNat = d.mantissa * (den * twoTo d.exponent.toNat) := by
    have scale : (twoTo (-d.exponent).toNat : ℚ) ≠ 0 := Nat.cast_ne_zero.mpr (twoTo_pos _).ne'
    have divisor : (den : ℚ) ≠ 0 := Nat.cast_ne_zero.mpr positive.ne'
    rw [Dyadic.value, unsigned, two_zpow_eq, withSign, if_neg Bool.false_ne_true, Int.cast_natCast,
      mul_div_assoc', div_eq_div_iff scale divisor, mul_assoc, mul_comm (twoTo _ : ℚ)] at value
    exact_mod_cast value.symm
  have rounded := nearest_of_decode decoded positive exact
  rw [unsigned] at rounded
  rw [rounded]
  exact ⟨d, decoded, value⟩

end Tableflow.Number
