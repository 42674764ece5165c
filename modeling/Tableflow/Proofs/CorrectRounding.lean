import Tableflow.Proofs.Integers
import Tableflow.Proofs.NumberText

/-!
Rounding is correct. A fraction below half way beyond the greatest number is rounded to the number
nearest to it, to the one with the even mantissa where two are equally near. From there on fractions
are rounded to infinite numbers.
-/

namespace Tableflow.Number

variable {x : Float} {d : Dyadic} {negative : Bool} {num den m n : Nat} {q p : Int} {r : ℚ}

/-- Half way from the greatest number to the next power of two. -/
def overflow : ℚ := 2 ^ 1024 - 2 ^ 970

/-- The value `r`, negated if `negative`. -/
def oriented (negative : Bool) (r : ℚ) : ℚ := if negative then -r else r

/-- The number has the sign, no finite number lies nearer to `±r`, and if another one lies as near, the
mantissa is even. -/
def RoundedFrom (x : Float) (negative : Bool) (r : ℚ) : Prop :=
  ∃ d, decode? x = some d ∧ d.negative = negative ∧ ∀ y v, IsExactly y v →
    |d.value - oriented negative r| ≤ |v - oriented negative r| ∧
    (v ≠ d.value → |v - oriented negative r| = |d.value - oriented negative r| → d.mantissa % 2 = 0)

/-! ### Rounding to an integer -/

theorem roundHalfEven_bounds (positive : 0 < den) :
    2 * roundHalfEven num den * den ≤ 2 * num + den ∧ 2 * num ≤ (2 * roundHalfEven num den + 1) * den ∧
      (roundHalfEven num den % 2 = 0 ∨ (2 * roundHalfEven num den * den < 2 * num + den ∧
        2 * num < (2 * roundHalfEven num den + 1) * den)) := by
  have whole := Nat.div_add_mod num den
  have rest := Nat.mod_lt num positive
  unfold roundHalfEven
  dsimp only
  generalize num / den = k at *
  split
  · rw [show 2 * (k + 1) * den = 2 * (den * k) + 2 * den by ring,
      show (2 * (k + 1) + 1) * den = 2 * (den * k) + 3 * den by ring]
    omega
  · rw [show 2 * k * den = 2 * (den * k) by ring, show (2 * k + 1) * den = 2 * (den * k) + den by ring]
    omega

/-- A fraction lies at most a half away from the integer to which it is rounded, and at a half that
integer is even. -/
theorem roundHalfEven_ratio (positive : 0 < den) :
    (roundHalfEven num den - 1 / 2 : ℚ) ≤ num / den ∧ (num / den : ℚ) ≤ roundHalfEven num den + 1 / 2 ∧
      (roundHalfEven num den % 2 = 0 ∨ ((roundHalfEven num den - 1 / 2 : ℚ) < num / den ∧
        (num / den : ℚ) < roundHalfEven num den + 1 / 2)) := by
  have positive' : (0 : ℚ) < den := by exact_mod_cast positive
  obtain ⟨low, high, inside⟩ := @roundHalfEven_bounds num den positive
  rw [le_div_iff₀ positive', div_le_iff₀ positive', lt_div_iff₀ positive', div_lt_iff₀ positive']
  generalize roundHalfEven num den = k at *
  qify at low high
  refine ⟨by linarith, by linarith, inside.imp_right fun ⟨above, below⟩ => ?_⟩
  qify at above below
  exact ⟨by linarith, by linarith⟩

theorem roundHalfEven_scaled_ratio (positive : 0 < den) (q : Int) :
    let k := roundHalfEven (num * twoTo (-q).toNat) (den * twoTo q.toNat)
    (k - 1 / 2 : ℚ) * 2 ^ q ≤ num / den ∧ (num / den : ℚ) ≤ (k + 1 / 2) * 2 ^ q ∧
      (k % 2 = 0 ∨ ((k - 1 / 2 : ℚ) * 2 ^ q < num / den ∧ (num / den : ℚ) < (k + 1 / 2) * 2 ^ q)) := by
  have unit : (0 : ℚ) < 2 ^ q := by positivity
  intro k
  rw [ratio_eq num den q, mul_le_mul_iff_left₀ unit, mul_le_mul_iff_left₀ unit, mul_lt_mul_iff_left₀ unit,
    mul_lt_mul_iff_left₀ unit]
  exact roundHalfEven_ratio (Nat.mul_pos positive (twoTo_pos _))

/-! ### Rounding to a number -/

/-- The bits of a mantissa and an exponent are taken apart into the two. -/
theorem decode_of_parts (bits : x.toBits.toNat = signBit negative + ((q + 1074).toNat * hiddenBit + m))
    (small : m < 2 * hiddenBit) (low : -1074 ≤ q) (high : q ≤ 971) (full : q = -1074 ∨ hiddenBit ≤ m) :
    decode? x = some ⟨negative, m, q⟩ := by
  rcases Nat.lt_or_ge m hiddenBit with less | full
  · obtain rfl : q = -1074 := by omega
    have sign := signBit_cases negative
    have biased : x.toBits.toNat / hiddenBit % 2048 = 0 := by
      simp only [signWeight, hiddenBit] at *
      omega
    have fraction : x.toBits.toNat % hiddenBit = m := by
      simp only [signWeight, hiddenBit] at *
      omega
    have marked : decide (signWeight ≤ x.toBits.toNat) = negative := by
      rcases sign with ⟨sign, rfl⟩ | ⟨sign, rfl⟩
      · rw [decide_eq_false_iff_not, bits, sign]
        simp only [signWeight, hiddenBit] at *
        omega
      · rw [decide_eq_true_iff, bits, sign]
        omega
    unfold decode?
    dsimp only
    rw [biased, fraction, marked, if_neg (by decide), if_pos rfl]
  · exact decode_of_bits bits full small low high

theorem decode_ofBits (small : m < 2 * hiddenBit) (low : -1074 ≤ q) (high : q ≤ 971)
    (full : q = -1074 ∨ hiddenBit ≤ m) :
    decode? (Float.ofBits (signBit negative + ((q + 1074).toNat * hiddenBit + m)).toUInt64) =
      some ⟨negative, m, q⟩ := by
  refine decode_of_parts ?_ small low high full
  have sign := signBit_cases negative
  apply toNat_ofBits <;> simp only [signWeight, infinityBits, hiddenBit] at * <;> omega

theorem overflow_eq : overflow = (2 * hiddenBit - 1 / 2) * 2 ^ (971 : Int) := by
  have top : (2 : ℚ) ^ 1024 = 2 ^ 54 * 2 ^ 970 := by rw [← pow_add]
  have last : (2 : ℚ) ^ (971 : Int) = 2 * 2 ^ 970 := by
    rw [← pow_succ']
    exact zpow_natCast 2 971
  rw [overflow, top, last, hiddenBit]
  generalize (2 : ℚ) ^ 970 = unit
  norm_num
  ring

theorem two_zpow_le_overflow : (2 : ℚ) ^ (1023 : Int) ≤ overflow := by
  have top : (2 : ℚ) ^ (1023 : Int) = hiddenBit * 2 ^ (971 : Int) := by
    rw [show (1023 : Int) = 52 + 971 from rfl, zpow_add₀ two_ne_zero]
    norm_num [hiddenBit]
  rw [top, overflow_eq]
  gcongr
  norm_num [hiddenBit]

theorem rounds_of_ratio (full : q = -1074 ∨ (hiddenBit : ℚ) * 2 ^ q ≤ r) (low : (m - 1 / 2 : ℚ) * 2 ^ q ≤ r)
    (high : r ≤ (m + 1 / 2) * 2 ^ q)
    (inside : m % 2 = 0 ∨ ((m - 1 / 2 : ℚ) * 2 ^ q < r ∧ r < (m + 1 / 2) * 2 ^ q)) : Rounds m q r := by
  have unit : (0 : ℚ) < 2 ^ q := by positivity
  by_cases power : m = hiddenBit ∧ -1074 < q
  · -- just below a power of two the numbers lie closer, but the fraction is not below it
    obtain ⟨rfl, greater⟩ := power
    have above := full.resolve_left greater.ne'
    have gap : gapBelow hiddenBit q = 1 := if_pos ⟨rfl, greater⟩
    rw [Rounds, if_pos (by decide), gap]
    refine ⟨le_trans ?_ above, high⟩
    apply mul_le_mul_of_nonneg_right _ unit.le
    norm_num
  · have gap : (gapBelow m q / 4 : ℚ) = 1 / 2 := by
      rw [gapBelow, if_neg power]
      norm_num
    rw [Rounds, gap]
    split
    · exact ⟨low, high⟩
    · exact inside.resolve_left ‹_›

theorem rounds_zero (nonnegative : 0 ≤ r) (small : r ≤ 1 / 2 * 2 ^ q) : Rounds 0 q r := by
  have unit : (0 : ℚ) < 2 ^ q := by positivity
  have gap : (0 : ℚ) ≤ gapBelow 0 q := Nat.cast_nonneg _
  rw [Rounds, if_pos rfl, Nat.cast_zero, zero_add]
  refine ⟨le_trans ?_ nonnegative, small⟩
  exact mul_nonpos_of_nonpos_of_nonneg (by linarith) unit.le

/-- What is rounded to a mantissa of one bit too many lies in the interval of the next power of two. -/
theorem rounds_carried (least : -1074 ≤ q) (low : (2 * hiddenBit - 1 / 2 : ℚ) * 2 ^ q ≤ r)
    (high : r ≤ (2 * hiddenBit + 1 / 2) * 2 ^ q) : Rounds hiddenBit (q + 1) r := by
  have unit : (0 : ℚ) < 2 ^ q := by positivity
  have gap : gapBelow hiddenBit (q + 1) = 1 := if_pos ⟨rfl, by omega⟩
  rw [Rounds, if_pos (by decide), gap, zpow_add_one₀ two_ne_zero]
  constructor <;> linarith

theorem full_of_ratio (reached : (hiddenBit : ℚ) * 2 ^ q ≤ r) (high : r ≤ (m + 1 / 2) * 2 ^ q) :
    hiddenBit ≤ m := by
  have unit : (0 : ℚ) < 2 ^ q := by positivity
  have near : (hiddenBit : ℚ) ≤ m + 1 / 2 := le_of_mul_le_mul_right (reached.trans high) unit
  have less : (hiddenBit : ℚ) < (m + 1 : Nat) := by
    push_cast
    linarith
  exact Nat.lt_succ_iff.mp (by exact_mod_cast less)

section

variable (some : 0 < num) (positive : 0 < den)

include some positive

theorem hidden_le_ratio : (hiddenBit : ℚ) * 2 ^ (floorLog2 num den - 52) ≤ num / den := by
  have reached := (le_floorLog2_iff some positive).mp le_rfl
  have hidden : (hiddenBit : ℚ) = 2 ^ (52 : Int) := by norm_num [hiddenBit]
  rwa [hidden, ← zpow_add₀ two_ne_zero, add_sub_cancel]

theorem floorLog2_le_of_lt (below : (num / den : ℚ) < overflow) : floorLog2 num den ≤ 1023 := by
  rw [← Int.lt_add_one_iff, ← not_le, le_floorLog2_iff some positive, not_le]
  refine below.trans_le ((sub_le_self _ (by positivity)).trans ?_)
  exact (zpow_natCast 2 1024).ge

theorem le_floorLog2_of_le (above : overflow ≤ (num / den : ℚ)) : 1023 ≤ floorLog2 num den := by
  rw [le_floorLog2_iff some positive]
  exact two_zpow_le_overflow.trans above

end

/-- A fraction in range is rounded to a number in whose interval it lies. -/
theorem exists_decode_nearest (positive : 0 < den) (below : (num / den : ℚ) < overflow) :
    ∃ d, decode? (nearest negative num den) = some d ∧ d.negative = negative ∧
      Rounds d.mantissa d.exponent (num / den) := by
  rcases Nat.eq_zero_or_pos num with rfl | some
  · have same : nearest negative 0 den = nearest negative 0 1 := by
      rw [nearest, nearest, if_pos rfl, if_pos rfl]
    rw [same, decode_nearest_zero, Nat.cast_zero, zero_div]
    exact ⟨_, rfl, rfl, rounds_zero le_rfl (by positivity)⟩
  have narrow := floorLog2_le_of_lt some positive below
  have most := mantissa_le some positive (le_max_left (floorLog2 num den - 52) (-1074))
  have least := le_max_right (floorLog2 num den - 52) (-1074)
  have high' : max (floorLog2 num den - 52) (-1074) ≤ 971 := by omega
  have leading : max (floorLog2 num den - 52) (-1074) = -1074 ∨
      (hiddenBit : ℚ) * 2 ^ max (floorLog2 num den - 52) (-1074) ≤ num / den := by
    rcases Int.lt_or_le (-1074) (floorLog2 num den - 52) with above | least
    · rw [max_eq_left above.le]
      exact .inr (hidden_le_ratio some positive)
    · exact .inl (max_eq_right least)
  obtain ⟨low, high, inside⟩ :=
    @roundHalfEven_scaled_ratio num den positive (max (floorLog2 num den - 52) (-1074))
  rw [nearest, if_neg some.ne']
  dsimp only
  generalize max (floorLog2 num den - 52) (-1074) = q at *
  generalize roundHalfEven (num * twoTo (-q).toNat) (den * twoTo q.toNat) = m at *
  have full : q = -1074 ∨ hiddenBit ≤ m := leading.imp_right fun reached => full_of_ratio reached high
  rcases Nat.lt_or_eq_of_le most with small | rfl
  · rw [Nat.min_eq_left (by simp only [infinityBits, hiddenBit] at *; omega)]
    exact ⟨_, decode_ofBits small least high' full, rfl, rounds_of_ratio leading low high inside⟩
  · -- the doubled mantissa carries into the exponent
    rw [Nat.cast_mul, Nat.cast_two] at low high
    have less : q < 971 := by
      refine lt_of_le_of_ne high' fun top => ?_
      rw [top, ← overflow_eq] at low
      exact absurd low (not_le.mpr below)
    have carried : (q + 1074).toNat * hiddenBit + 2 * hiddenBit =
        (q + 1 + 1074).toNat * hiddenBit + hiddenBit := by
      rw [show (q + 1 + 1074).toNat = (q + 1074).toNat + 1 by omega]
      ring
    rw [carried, Nat.min_eq_left (by simp only [infinityBits, hiddenBit] at *; omega)]
    exact ⟨_, decode_ofBits (by decide) (by omega) (by omega) (.inr le_rfl), rfl,
      rounds_carried least low high⟩

theorem isFinite_nearest_overflow (positive : 0 < den) (above : overflow ≤ (num / den : ℚ)) :
    (nearest negative num den).isFinite = false := by
  have large : 0 < overflow := lt_of_lt_of_le (by positivity) two_zpow_le_overflow
  have positive' : (0 : ℚ) < den := by exact_mod_cast positive
  have some : 0 < num := by
    exact_mod_cast (div_pos_iff_of_pos_right positive').mp (large.trans_le above)
  have wide := le_floorLog2_of_le some positive above
  have leading := hidden_le_ratio some positive
  obtain ⟨_, high, inside⟩ := @roundHalfEven_scaled_ratio num den positive (floorLog2 num den - 52)
  rw [← Bool.not_eq_true, isFinite_iff, Nat.not_lt, nearest, if_neg some.ne']
  dsimp only
  rw [natAbs_position_ofBits negative (Nat.min_le_right _ _), Nat.le_min, max_eq_left (by omega)]
  refine ⟨?_, le_rfl⟩
  generalize place : floorLog2 num den - 52 = q at *
  generalize roundHalfEven (num * twoTo (-q).toNat) (den * twoTo q.toNat) = m at *
  have full := full_of_ratio leading high
  rcases (by omega : q = 971 ∨ 972 ≤ q) with rfl | beyond
  · -- the odd mantissa before the power of two is rounded to only from below
    rw [overflow_eq] at above
    have unit : (0 : ℚ) < 2 ^ (971 : Int) := by positivity
    have double : 2 * hiddenBit ≤ m := by
      have near := le_of_mul_le_mul_right (above.trans high) unit
      have near : 2 * hiddenBit ≤ m + 1 := by
        have near : (2 * hiddenBit : ℚ) ≤ (m + 1 : Nat) := by
          push_cast
          linarith only [near]
        exact_mod_cast near
      rcases Nat.lt_or_eq_of_le near with less | same
      · exact Nat.lt_succ_iff.mp less
      · exfalso
        have odd : m % 2 ≠ 0 := by
          simp only [hiddenBit] at same
          omega
        have strict := lt_of_mul_lt_mul_right (above.trans_lt (inside.resolve_left odd).2) unit.le
        have same : (2 * hiddenBit : ℚ) = m + 1 := by exact_mod_cast same
        linarith only [strict, same]
    simp only [infinityBits, hiddenBit] at double ⊢
    omega
  · simp only [infinityBits, hiddenBit] at full ⊢
    omega

/-! ### The nearest number -/

section

variable {e : Dyadic} {y : Float}

theorem value_le_of_exponent_lt (decoded : decode? y = some e) (less : e.exponent < q) :
    (e.mantissa : ℚ) * 2 ^ e.exponent ≤ (hiddenBit - 1 / 2) * 2 ^ q := by
  obtain ⟨small, -, -, -⟩ := decode_range decoded
  have small : (e.mantissa : ℚ) + 1 ≤ 2 * hiddenBit := by exact_mod_cast small
  have unit : (2 : ℚ) ^ q = 2 * 2 ^ (q - 1) := by rw [← zpow_one_add₀ two_ne_zero, add_sub_cancel]
  calc (e.mantissa : ℚ) * 2 ^ e.exponent
      ≤ (2 * hiddenBit - 1) * 2 ^ (q - 1) := by
        apply mul_le_mul (by linarith) (zpow_le_zpow_right₀ one_le_two (by omega)) (by positivity)
        linarith [(e.mantissa.cast_nonneg : (0 : ℚ) ≤ e.mantissa)]
    _ = (hiddenBit - 1 / 2) * 2 ^ q := by
        rw [unit]
        ring

theorem value_shift (above : q ≤ p) (m : Nat) : ((m * 2 ^ (p - q).toNat : Nat) : ℚ) * 2 ^ q = m * 2 ^ p := by
  rw [Nat.cast_mul, Nat.cast_pow, Nat.cast_ofNat, mul_assoc, ← zpow_natCast, ← zpow_add₀ two_ne_zero,
    Int.toNat_of_nonneg (by omega), sub_add_cancel]

/-- With a greater exponent the value is a multiple of the lesser unit. -/
theorem exists_multiple (m : Nat) (above : q ≤ p) : ∃ k : Nat, (m : ℚ) * 2 ^ p = k * 2 ^ q :=
  ⟨_, (value_shift above m).symm⟩

variable (decoded : decode? x = some d) (decoded' : decode? y = some e)

include decoded decoded'

/-- Above a number the next one is a unit of its mantissa away. -/
theorem next_above (more : (d.mantissa : ℚ) * 2 ^ d.exponent < e.mantissa * 2 ^ e.exponent) :
    (d.mantissa + 1 : ℚ) * 2 ^ d.exponent ≤ e.mantissa * 2 ^ e.exponent := by
  have unit : (0 : ℚ) < 2 ^ d.exponent := by positivity
  obtain ⟨-, -, -, full⟩ := decode_range decoded
  obtain ⟨-, least, -, -⟩ := decode_range decoded'
  rcases Int.lt_or_le e.exponent d.exponent with shorter | above
  · have full : (hiddenBit : ℚ) ≤ d.mantissa := by exact_mod_cast full.resolve_left (by omega)
    have short := value_le_of_exponent_lt decoded' shorter
    have reached := lt_of_mul_lt_mul_right (more.trans_le short) unit.le
    linarith
  · obtain ⟨k, value⟩ := exists_multiple e.mantissa above
    rw [value] at more ⊢
    have more : d.mantissa + 1 ≤ k := by exact_mod_cast lt_of_mul_lt_mul_right more unit.le
    apply mul_le_mul_of_nonneg_right _ unit.le
    exact_mod_cast more

/-- Below a number the next one is a unit of its mantissa away, or half of that below a power of two. -/
theorem next_below (less : (e.mantissa : ℚ) * 2 ^ e.exponent < d.mantissa * 2 ^ d.exponent) :
    (e.mantissa : ℚ) * 2 ^ e.exponent ≤ (d.mantissa - gapBelow d.mantissa d.exponent / 2) * 2 ^ d.exponent := by
  have unit : (0 : ℚ) < 2 ^ d.exponent := by positivity
  have gap := gapBelow_le d.mantissa d.exponent
  obtain ⟨-, -, -, full⟩ := decode_range decoded
  obtain ⟨-, least, -, -⟩ := decode_range decoded'
  rcases Int.lt_or_le e.exponent d.exponent with shorter | above
  · have full := full.resolve_left (by omega)
    refine (value_le_of_exponent_lt decoded' shorter).trans (mul_le_mul_of_nonneg_right ?_ unit.le)
    rcases Nat.lt_or_eq_of_le full with more | same
    · have more : (hiddenBit : ℚ) + 1 ≤ d.mantissa := by exact_mod_cast more
      linarith
    · have gap : gapBelow d.mantissa d.exponent = 1 := if_pos ⟨same.symm, by omega⟩
      rw [gap, ← same, Nat.cast_one]
  · obtain ⟨k, value⟩ := exists_multiple e.mantissa above
    rw [value] at less ⊢
    have less : k + 1 ≤ d.mantissa := by exact_mod_cast lt_of_mul_lt_mul_right less unit.le
    have less : (k : ℚ) + 1 ≤ d.mantissa := by exact_mod_cast less
    apply mul_le_mul_of_nonneg_right _ unit.le
    linarith

/-- No number is nearer to a fraction than the one in whose interval it lies. -/
theorem distance_le (rounds : Rounds d.mantissa d.exponent r) :
    |d.mantissa * 2 ^ d.exponent - r| ≤ |e.mantissa * 2 ^ e.exponent - r| ∧
      (e.mantissa * 2 ^ e.exponent ≠ (d.mantissa * 2 ^ d.exponent : ℚ) → d.mantissa % 2 ≠ 0 →
        |d.mantissa * 2 ^ d.exponent - r| < |e.mantissa * 2 ^ e.exponent - r|) := by
  have above := next_above decoded decoded'
  have below := next_below decoded decoded'
  obtain ⟨low, high⟩ := rounds.bounds
  have inside := rounds.inside
  generalize (e.mantissa * 2 ^ e.exponent : ℚ) = other at *
  generalize (2 : ℚ) ^ d.exponent = unit at *
  rcases lt_trichotomy other (d.mantissa * unit) with less | same | more
  · have below := below less
    refine ⟨(abs_le.mpr ⟨?_, ?_⟩).trans (neg_le_abs _), fun _ odd => ?_⟩
    · linarith
    · linarith
    · have strict := (inside.resolve_left odd).1
      refine (abs_lt.mpr ⟨?_, ?_⟩).trans_le (neg_le_abs _)
      · linarith
      · linarith
  · exact ⟨by rw [same], fun apart => absurd same apart⟩
  · have above := above more
    refine ⟨(abs_le.mpr ⟨?_, ?_⟩).trans (le_abs_self _), fun _ odd => ?_⟩
    · linarith
    · linarith
    · have strict := (inside.resolve_left odd).2
      refine (abs_lt.mpr ⟨?_, ?_⟩).trans_le (le_abs_self _)
      · linarith
      · linarith

end

theorem cast_withSign (negative : Bool) (n : Nat) : (withSign negative n : ℚ) = oriented negative n := by
  cases negative
  · rfl
  · exact Int.cast_neg (n : Int)

theorem value_eq_oriented (d : Dyadic) : d.value = oriented d.negative (d.mantissa * 2 ^ d.exponent) := by
  rw [Dyadic.value, cast_withSign, oriented, oriented, ite_mul, neg_mul]

theorem abs_oriented_sub (negative : Bool) (a b : ℚ) :
    |oriented negative a - oriented negative b| = |a - b| := by
  cases negative with
  | false => rfl
  | true =>
    show |-a - -b| = |a - b|
    rw [neg_sub_neg, abs_sub_comm]

theorem oriented_not (negative : Bool) (a : ℚ) : oriented (!negative) a = oriented negative (-a) := by
  cases negative <;> simp [oriented]

/-- Rounding into an interval is rounding to the nearest number. -/
theorem roundedFrom_of_rounds (decoded : decode? x = some d) (nonnegative : 0 ≤ r)
    (rounds : Rounds d.mantissa d.exponent r) : RoundedFrom x d.negative r := by
  refine ⟨d, decoded, rfl, ?_⟩
  rintro y _ ⟨e, decoded', rfl⟩
  rw [value_eq_oriented d, abs_oriented_sub]
  obtain ⟨near, strict⟩ := distance_le decoded decoded' rounds
  by_cases alike : e.negative = d.negative
  · rw [value_eq_oriented e, alike, abs_oriented_sub]
    refine ⟨near, fun apart tie => ?_⟩
    by_contra odd
    exact (strict (fun same => apart (congrArg _ same)) odd).ne tie.symm
  · -- on the other side of zero nothing is nearer than zero
    obtain ⟨zero, strictZero⟩ := distance_le decoded (decode_nearest_zero false) rounds
    rw [Nat.cast_zero, zero_mul] at zero strictZero
    have farther : |0 - r| ≤ |-(e.mantissa * 2 ^ e.exponent : ℚ) - r| := by
      have size : (0 : ℚ) ≤ e.mantissa * 2 ^ e.exponent := by positivity
      rw [abs_of_nonpos (by linarith), abs_of_nonpos (by linarith)]
      linarith
    rw [value_eq_oriented e, Bool.eq_not.mpr alike, oriented_not, abs_oriented_sub]
    refine ⟨zero.trans farther, fun _ tie => ?_⟩
    by_contra odd
    have nonzero : (0 : ℚ) ≠ d.mantissa * 2 ^ d.exponent := by
      have positive : 0 < d.mantissa := Nat.pos_of_ne_zero fun none => odd (by rw [none])
      have positive : (0 : ℚ) < d.mantissa := by exact_mod_cast positive
      positivity
    exact ((strictZero nonzero odd).trans_le farther).ne tie.symm

/-! ### Decimals -/

variable {digits : Nat} {exponent : Int}

/-- A decimal whose first digit is far behind the point is rounded to zero. -/
theorem rounds_tiny (tiny : digits = 0 ∨ (digitChars digits).length + exponent < -330) :
    Rounds 0 (-1074) (digits * 10 ^ exponent) := by
  refine rounds_zero (by positivity) ?_
  rcases Nat.eq_zero_or_pos digits with rfl | some
  · rw [Nat.cast_zero, zero_mul]
    positivity
  · have tiny := tiny.resolve_left some.ne'
    have half : (1 / 2 : ℚ) * 2 ^ (-1074 : Int) = 2 ^ (-1075 : Int) := by
      rw [one_div, ← zpow_neg_one, ← zpow_add₀ two_ne_zero]
      rfl
    rw [half]
    exact (ten_zpow_length some exponent).2.le.trans (ten_zpow_le_two_zpow (by omega) (by omega))

theorem overflow_le_huge (some : 0 < digits) (huge : 310 < (digitChars digits).length + exponent) :
    overflow ≤ digits * 10 ^ exponent := by
  have power := @ten_zpow_le_two_zpow (-((digitChars digits).length + exponent - 1)) (-1024)
    (by omega) (by omega)
  rw [zpow_neg, zpow_neg, inv_le_inv₀ (by positivity) (by positivity)] at power
  calc overflow ≤ 2 ^ 1024 := sub_le_self _ (by positivity)
    _ = 2 ^ (1024 : Int) := (zpow_natCast 2 1024).symm
    _ ≤ 10 ^ ((digitChars digits).length + exponent - 1) := power
    _ ≤ digits * 10 ^ exponent := (ten_zpow_length some exponent).1

theorem ratio_tenTo (digits : Nat) (exponent : Int) :
    ((digits * tenTo exponent.toNat : Nat) / (tenTo (-exponent).toNat : Nat) : ℚ) = digits * 10 ^ exponent := by
  rw [Nat.cast_mul, mul_div_assoc, ← ten_zpow_eq]

/-- A decimal in range is rounded to the number nearest to it. -/
theorem roundedFrom_nearestDecimal (negative : Bool) (below : digits * 10 ^ exponent < overflow) :
    RoundedFrom (nearestDecimal negative digits exponent) negative (digits * 10 ^ exponent) := by
  have nonnegative : (0 : ℚ) ≤ digits * 10 ^ exponent := by positivity
  unfold nearestDecimal
  dsimp only
  split
  · rename_i tiny
    exact roundedFrom_of_rounds (decode_nearest_zero negative) nonnegative (rounds_tiny tiny)
  · rename_i ordinary
    have some : 0 < digits := by omega
    rw [if_neg fun huge => (overflow_le_huge some huge).not_gt below]
    rw [← ratio_tenTo] at below
    obtain ⟨d, decoded, rfl, rounds⟩ := @exists_decode_nearest negative _ _ (tenTo_pos _) below
    rw [ratio_tenTo] at rounds
    exact roundedFrom_of_rounds decoded nonnegative rounds

theorem isFinite_nearestDecimal_overflow (negative : Bool) (above : overflow ≤ digits * 10 ^ exponent) :
    (nearestDecimal negative digits exponent).isFinite = false := by
  unfold nearestDecimal
  dsimp only
  split
  · rename_i tiny
    refine absurd (above.trans (rounds_tiny tiny).bounds.2) (not_le.mpr ?_)
    calc ((0 : Nat) + 1 / 2 : ℚ) * 2 ^ (-1074 : Int)
        ≤ 1 * 2 ^ (-1074 : Int) := mul_le_mul_of_nonneg_right (by norm_num) (by positivity)
      _ = 2 ^ (-1074 : Int) := one_mul _
      _ < 2 ^ (1023 : Int) := zpow_lt_zpow_right₀ one_lt_two (by decide)
      _ ≤ overflow := two_zpow_le_overflow
  split
  · cases negative <;> rfl
  · rw [← ratio_tenTo] at above
    exact isFinite_nearest_overflow (tenTo_pos _) above

end Tableflow.Number
