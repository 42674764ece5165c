import Tableflow.Proofs.Rounding

/-!
The shortest decimal of a number is rounded to the number again: of the grids with up to seventeen
digits one has a point in the interval of the number.
-/

namespace Tableflow.Number

variable {num den m n : Nat} {q k e : Int} {tie : Tie}

/-! ### Powers of ten and of two -/

theorem tenTo_pos (n : Nat) : 0 < tenTo n := Nat.pow_pos (by decide)

theorem ten_zpow_eq (k : Int) : (10 : ℚ) ^ k = (tenTo k.toNat : ℚ) / tenTo (-k).toNat := by
  have cast (n : Nat) : ((tenTo n : Nat) : ℚ) = 10 ^ n := by
    simp only [tenTo, Nat.pow_eq, Nat.cast_pow, Nat.cast_ofNat]
  rw [cast, cast]
  rcases le_total 0 k with above | below
  · obtain ⟨n, rfl⟩ := Int.eq_ofNat_of_zero_le above
    simp
  · obtain ⟨n, size⟩ := Int.eq_ofNat_of_zero_le (Int.neg_nonneg_of_nonpos below)
    obtain rfl : k = -(n : Int) := by omega
    simp

/-- The logarithm of two to base ten lies between `59/196` and `28/93`. -/
theorem ten_zpow_le_two_zpow (up : 0 ≤ k → 196 * k ≤ 59 * e) (down : k ≤ 0 → 93 * k ≤ 28 * e) :
    (10 : ℚ) ^ k ≤ 2 ^ e := by
  have scaled (c : Nat) : ((10 : ℚ) ^ k) ^ c = (10 ^ c) ^ k := by rw [← zpow_natCast, zpow_comm, zpow_natCast]
  have scaled' (c : Nat) : ((2 : ℚ) ^ c) ^ k = 2 ^ (c * k) := by rw [← zpow_natCast, ← zpow_mul]
  have scaled'' (c : Nat) : ((2 : ℚ) ^ e) ^ c = 2 ^ (c * e) := by rw [← zpow_natCast, ← zpow_mul, mul_comm]
  rcases le_total 0 k with above | below
  · refine le_of_pow_le_pow_left₀ (n := 59) (by decide) (by positivity) ?_
    calc ((10 : ℚ) ^ k) ^ 59 = (10 ^ 59) ^ k := scaled 59
      _ ≤ (2 ^ 196) ^ k := zpow_le_zpow_left₀ above (by positivity) (by norm_num)
      _ = 2 ^ (196 * k) := scaled' 196
      _ ≤ 2 ^ (59 * e) := zpow_le_zpow_right₀ one_le_two (up above)
      _ = (2 ^ e) ^ 59 := (scaled'' 59).symm
  · refine le_of_pow_le_pow_left₀ (n := 28) (by decide) (by positivity) ?_
    calc ((10 : ℚ) ^ k) ^ 28 = (10 ^ 28) ^ k := scaled 28
      _ ≤ (2 ^ 93) ^ k := by
        rw [← inv_le_inv₀ (by positivity) (by positivity), ← zpow_neg, ← zpow_neg]
        exact zpow_le_zpow_left₀ (by omega) (by positivity) (by norm_num)
      _ = 2 ^ (93 * k) := scaled' 93
      _ ≤ 2 ^ (28 * e) := zpow_le_zpow_right₀ one_le_two (down below)
      _ = (2 ^ e) ^ 28 := (scaled'' 28).symm

/-- The power of ten that is found is not above the fraction. -/
theorem floorLog10_le (some : 0 < num) (positive : 0 < den)
    (range : -1100 ≤ floorLog2 num den ∧ floorLog2 num den ≤ 1100) :
    (10 : ℚ) ^ floorLog10 num den ≤ num / den := by
  have reaches {k : Int} (reached : den * tenTo k.toNat ≤ num * tenTo (-k).toNat) :
      (10 : ℚ) ^ k ≤ num / den := by
    have positive' : (0 : ℚ) < den := by exact_mod_cast positive
    have scale : (0 : ℚ) < tenTo (-k).toNat := by exact_mod_cast tenTo_pos _
    rw [ten_zpow_eq, div_le_div_iff₀ scale positive', mul_comm]
    exact_mod_cast reached
  unfold floorLog10
  dsimp only
  split
  · rename_i reached
    exact reaches (of_decide_eq_true reached)
  split
  · rename_i reached
    exact reaches (of_decide_eq_true reached)
  · refine le_trans ?_ ((le_floorLog2_iff some positive).mp le_rfl)
    apply ten_zpow_le_two_zpow <;> intro <;> omega

/-! ### Points of a grid -/

/-- The factor by which quarters of `2^q` and multiples of `10^k` are made integers. -/
def gridScale (q k : Int) : Nat := twoTo (2 - q).toNat * tenTo (-k).toNat

theorem gridScale_pos (q k : Int) : (0 : ℚ) < gridScale q k := by
  exact_mod_cast Nat.mul_pos (twoTo_pos _) (tenTo_pos _)

theorem cast_quarters (c : Nat) (q k : Int) :
    ((c * (twoTo (q - 2).toNat * tenTo (-k).toNat) : Nat) : ℚ) = c / 4 * 2 ^ q * gridScale q k := by
  have quarter : (2 : ℚ) ^ q = 4 * 2 ^ (q - 2) := by
    rw [show (4 : ℚ) = 2 ^ (2 : Int) by norm_num, ← zpow_add₀ two_ne_zero]
    congr 1
    ring
  have down : ((twoTo (2 - q).toNat : Nat) : ℚ) ≠ 0 := by exact_mod_cast (twoTo_pos _).ne'
  rw [quarter, two_zpow_eq, gridScale, show -(q - 2) = 2 - q by ring]
  push_cast
  field_simp

theorem cast_point (n : Nat) (q k : Int) :
    ((n * (twoTo (2 - q).toNat * tenTo k.toNat) : Nat) : ℚ) = n * 10 ^ k * gridScale q k := by
  have down : ((tenTo (-k).toNat : Nat) : ℚ) ≠ 0 := by exact_mod_cast (tenTo_pos _).ne'
  rw [ten_zpow_eq, gridScale]
  push_cast
  field_simp

/-- The test for a point of the grid is the one for the fraction that it stands for. -/
theorem rounds_iff (nonzero : 0 < m) :
    (let grid := twoTo (2 - q).toNat * tenTo k.toNat
     let unit := twoTo (q - 2).toNat * tenTo (-k).toNat
     let low := (4 * m - gapBelow m q) * unit
     let high := (4 * m + 2) * unit
     if m % 2 = 0 then low ≤ n * grid && n * grid ≤ high else low < n * grid && n * grid < high) = true ↔
      Rounds m q (n * 10 ^ k) := by
  have scale := gridScale_pos q k
  have fits : gapBelow m q ≤ 4 * m := by
    unfold gapBelow
    split <;> omega
  have low : (((4 * m - gapBelow m q : Nat) : ℚ) / 4) = m - gapBelow m q / 4 := by
    rw [Nat.cast_sub fits]
    push_cast
    ring
  have high : (((4 * m + 2 : Nat) : ℚ) / 4) = m + 1 / 2 := by
    push_cast
    ring
  dsimp only
  unfold Rounds
  split
  · rw [Bool.and_eq_true, decide_eq_true_iff, decide_eq_true_iff, ← @Nat.cast_le ℚ, ← @Nat.cast_le ℚ,
      cast_quarters, cast_quarters, cast_point, mul_le_mul_iff_left₀ scale, mul_le_mul_iff_left₀ scale,
      low, high]
  · rw [Bool.and_eq_true, decide_eq_true_iff, decide_eq_true_iff, ← @Nat.cast_lt ℚ, ← @Nat.cast_lt ℚ,
      cast_quarters, cast_quarters, cast_point, mul_lt_mul_iff_left₀ scale, mul_lt_mul_iff_left₀ scale,
      low, high]

theorem rounds_of_onGrid? (nonzero : 0 < m) (found : onGrid? tie m q k = some n) :
    Rounds m q (n * 10 ^ k) := by
  rw [← rounds_iff nonzero]
  unfold onGrid? at found
  dsimp only at found ⊢
  split at found
  · split at found
    · cases found; assumption
    split at found
    · cases found; assumption
    split at found
    · cases found; assumption
    split at found
    · cases found; assumption
    · cases found; assumption
  · cases found; assumption
  · cases found; assumption
  · cases found

theorem low_of_not_rounds {r : ℚ} (outside : ¬ Rounds m q r) (below : r ≤ m * 2 ^ q) :
    r ≤ (m - gapBelow m q / 4) * 2 ^ q := by
  have unit : (0 : ℚ) < 2 ^ q := by positivity
  by_contra inside
  have inside := not_le.mp inside
  have high : r < (m + 1 / 2) * 2 ^ q := by linarith
  apply outside
  unfold Rounds
  split
  · exact ⟨inside.le, high.le⟩
  · exact ⟨inside, high⟩

theorem high_of_not_rounds {r : ℚ} (outside : ¬ Rounds m q r) (above : m * 2 ^ q ≤ r) :
    (m + 1 / 2) * 2 ^ q ≤ r := by
  have unit : (0 : ℚ) < 2 ^ q := by positivity
  by_contra inside
  have inside := not_le.mp inside
  have gap : (0 : ℚ) < gapBelow m q := by
    unfold gapBelow
    split <;> norm_num
  have low : (m - gapBelow m q / 4) * 2 ^ q < r := by nlinarith
  apply outside
  unfold Rounds
  split
  · exact ⟨low.le, inside.le⟩
  · exact ⟨low, inside⟩

/-- The point of the grid at or below the number, and the next one. -/
theorem grid_neighbours (m : Nat) (q k : Int) :
    let floor := 4 * m * (twoTo (q - 2).toNat * tenTo (-k).toNat) / (twoTo (2 - q).toNat * tenTo k.toNat)
    (floor : ℚ) * 10 ^ k ≤ m * 2 ^ q ∧ m * 2 ^ q ≤ ((floor + 1 : Nat) : ℚ) * 10 ^ k := by
  have scale := gridScale_pos q k
  have positive : 0 < twoTo (2 - q).toNat * tenTo k.toNat := Nat.mul_pos (twoTo_pos _) (tenTo_pos _)
  have number : (m * 2 ^ q : ℚ) = (4 * m : Nat) / 4 * 2 ^ q := by
    push_cast
    ring
  intro floor
  rw [number]
  constructor
  · rw [← mul_le_mul_iff_left₀ scale, ← cast_point, ← cast_quarters, Nat.cast_le]
    exact Nat.div_mul_le_self _ _
  · rw [← mul_le_mul_iff_left₀ scale, ← cast_point, ← cast_quarters, Nat.cast_le]
    exact (Nat.lt_mul_of_div_lt (Nat.lt_succ_self floor) positive).le

/-- A grid without a point in the interval is coarser than the interval. -/
theorem spacing_of_onGrid? (nonzero : 0 < m) (none : onGrid? tie m q k = none) :
    (gapBelow m q + 2) / 4 * 2 ^ q ≤ (10 : ℚ) ^ k := by
  obtain ⟨below, above⟩ := grid_neighbours m q k
  unfold onGrid? at none
  dsimp only at none
  split at none
  · repeat' split at none
    all_goals cases none
  · cases none
  · cases none
  rename_i first second
  rw [← Bool.not_eq_true] at first second
  have low := low_of_not_rounds (mt (rounds_iff nonzero).mpr first) below
  have high := high_of_not_rounds (mt (rounds_iff nonzero).mpr second) above
  push_cast at high
  linarith

/-! ### The shortest decimal -/

/-- The value `digits · 10^exponent`. -/
def Numeral.value (n : Numeral) : ℚ := n.digits * 10 ^ n.exponent

theorem value_strip (fuel : Nat) (n : Numeral) : (n.strip fuel).value = n.value := by
  induction fuel generalizing n with
  | zero => rfl
  | succ fuel ih =>
    rw [Numeral.strip]
    split
    · rename_i divides
      rw [ih, Numeral.value, Numeral.value]
      have whole : (n.digits : ℚ) = (n.digits / 10 : Nat) * 10 := by
        exact_mod_cast (Nat.div_mul_cancel (Nat.dvd_of_mod_eq_zero divides)).symm
      rw [whole, zpow_add_one₀ (by norm_num)]
      ring
    · rfl

section

variable (nonzero : 0 < m) (small : m < 2 * hiddenBit) (least : -1074 ≤ q) (most : q ≤ 971)

include nonzero small least most

theorem ten_zpow_floorLog10_le :
    (10 : ℚ) ^ floorLog10 (m * twoTo q.toNat) (twoTo (-q).toNat) ≤ m * 2 ^ q := by
  have some : 0 < m * twoTo q.toNat := Nat.mul_pos nonzero (twoTo_pos _)
  have number : ((m * twoTo q.toNat : Nat) / (twoTo (-q).toNat : Nat) : ℚ) = m * 2 ^ q := by
    rw [two_zpow_eq]
    push_cast
    ring
  rw [← number]
  refine floorLog10_le some (twoTo_pos _) ⟨?_, ?_⟩
  · refine le_trans ?_ ((le_floorLog2_iff (e := q) some (twoTo_pos _)).mpr ?_)
    · omega
    · rw [number]
      have : (1 : ℚ) ≤ m := by exact_mod_cast nonzero
      exact le_mul_of_one_le_left (by positivity) this
  · rw [← not_lt, ← Int.add_one_le_iff, le_floorLog2_iff some (twoTo_pos _), number, not_le]
    have small : (m : ℚ) < 2 ^ 53 := by exact_mod_cast small
    calc (m * 2 ^ q : ℚ) < 2 ^ 53 * 2 ^ q := by gcongr
      _ = 2 ^ ((53 : Nat) + q) := by rw [zpow_add₀ two_ne_zero, zpow_natCast]
      _ ≤ 2 ^ (1100 + 1 : Int) := zpow_le_zpow_right₀ one_le_two (by omega)

/-- Seventeen digits make a grid that is finer than the interval. -/
theorem onGrid?_seventeen (tie : Tie) :
    onGrid? tie m q (floorLog10 (m * twoTo q.toNat) (twoTo (-q).toNat) - (16 : Nat)) ≠ none := by
  intro none
  have coarse := spacing_of_onGrid? nonzero none
  have reached := ten_zpow_floorLog10_le nonzero small least most
  have unit : (0 : ℚ) < 2 ^ q := by positivity
  rw [zpow_sub₀ (by norm_num), zpow_natCast, le_div_iff₀ (by positivity)] at coarse
  have fine : ((gapBelow m q + 2) / 4 * 10 ^ 16 : ℚ) ≤ m := by
    refine le_of_mul_le_mul_right ?_ unit
    linarith
  unfold gapBelow at fine
  split at fine
  · rename_i power
    rw [power.1, hiddenBit] at fine
    norm_num at fine
  · have small : (m : ℚ) < 2 * hiddenBit := by exact_mod_cast small
    rw [hiddenBit] at small
    norm_num at fine small
    linarith

/-- The shortest decimal lies in the interval of its number. -/
theorem rounds_shortest (tie : Tie) : Rounds m q (shortest tie m q).value := by
  have last := onGrid?_seventeen nonzero small least most tie
  unfold shortest
  dsimp only
  rw [value_strip]
  generalize floorLog10 (m * twoTo q.toNat) (twoTo (-q).toNat) = top at last ⊢
  obtain ⟨numeral, found⟩ : ∃ numeral, ((List.range 17).findSome? fun (n : Nat) =>
      (onGrid? tie m q (top - n)).map fun d => (⟨d, top - n⟩ : Numeral)) = some numeral := by
    rw [← Option.isSome_iff_exists, List.findSome?_isSome_iff]
    exact ⟨16, by decide, by simpa [Option.isSome_iff_ne_none] using last⟩
  rw [found, Option.getD_some]
  obtain ⟨n, _, point⟩ := List.exists_of_findSome?_eq_some found
  obtain ⟨digits, here, rfl⟩ := Option.map_eq_some_iff.mp point
  exact rounds_of_onGrid? nonzero here

end

end Tableflow.Number
