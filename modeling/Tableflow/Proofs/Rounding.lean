import Tableflow.Number.Shortest
import Tableflow.Proofs.Exact

/-!
The fractions that are rounded to a number. They lie between the middles to its two neighbours, and
a middle itself belongs to the number if its mantissa is even.
-/

namespace Tableflow.Number

variable {x : Float} {d : Dyadic} {num den m : Nat} {q e : Int} {r : ℚ}

/-! ### Rounding to an integer -/

theorem roundHalfEven_eq (positive : 0 < den) (low : 2 * m * den ≤ 2 * num + den)
    (high : 2 * num ≤ (2 * m + 1) * den)
    (inside : m % 2 = 0 ∨ (2 * m * den < 2 * num + den ∧ 2 * num < (2 * m + 1) * den)) :
    roundHalfEven num den = m := by
  have whole := Nat.div_add_mod num den
  have rest := Nat.mod_lt num positive
  rw [show 2 * m * den = 2 * (den * m) by ring,
    show (2 * m + 1) * den = 2 * (den * m) + den by ring] at *
  unfold roundHalfEven
  dsimp only
  rcases Nat.lt_or_ge num (den * m) with below | above
  · obtain ⟨k, rfl⟩ : ∃ k, m = k + 1 := Nat.exists_eq_succ_of_ne_zero (by rintro rfl; omega)
    rw [Nat.mul_add, Nat.mul_one] at *
    have quotient : num / den = k :=
      Nat.div_eq_of_lt_le (by rw [Nat.mul_comm]; omega) (by rw [Nat.mul_comm, Nat.mul_succ]; omega)
    rw [quotient] at whole ⊢
    split <;> omega
  · have quotient : num / den = m :=
      Nat.div_eq_of_lt_le (by rw [Nat.mul_comm]; omega) (by rw [Nat.mul_comm, Nat.mul_succ]; omega)
    rw [quotient] at whole ⊢
    split <;> omega

/-- A fraction is rounded to an integer at most a half away, to an odd one if it is nearer still. -/
theorem roundHalfEven_of_ratio (positive : 0 < den) (low : (m - 1 / 2 : ℚ) ≤ num / den)
    (high : (num / den : ℚ) ≤ m + 1 / 2)
    (inside : m % 2 = 0 ∨ ((m - 1 / 2 : ℚ) < num / den ∧ (num / den : ℚ) < m + 1 / 2)) :
    roundHalfEven num den = m := by
  have positive' : (0 : ℚ) < den := by exact_mod_cast positive
  rw [le_div_iff₀ positive', sub_mul] at low
  rw [div_le_iff₀ positive', add_mul] at high
  rw [lt_div_iff₀ positive', sub_mul, div_lt_iff₀ positive', add_mul] at inside
  refine roundHalfEven_eq positive ?_ ?_ (inside.imp_right fun within => ⟨?_, ?_⟩)
  all_goals qify
  · linarith
  · linarith
  · linarith [within.1]
  · linarith [within.2]

theorem ratio_eq (num den : Nat) (q : Int) :
    (num / den : ℚ) = (num * twoTo (-q).toNat : Nat) / (den * twoTo q.toNat : Nat) * 2 ^ q := by
  have up : ((twoTo q.toNat : Nat) : ℚ) ≠ 0 := by exact_mod_cast (twoTo_pos _).ne'
  have down : ((twoTo (-q).toNat : Nat) : ℚ) ≠ 0 := by exact_mod_cast (twoTo_pos _).ne'
  rw [two_zpow_eq]
  push_cast
  field_simp

theorem roundHalfEven_scaled (positive : 0 < den) (low : (m - 1 / 2 : ℚ) * 2 ^ q ≤ num / den)
    (high : (num / den : ℚ) ≤ (m + 1 / 2) * 2 ^ q)
    (inside : m % 2 = 0 ∨ ((m - 1 / 2 : ℚ) * 2 ^ q < num / den ∧ (num / den : ℚ) < (m + 1 / 2) * 2 ^ q)) :
    roundHalfEven (num * twoTo (-q).toNat) (den * twoTo q.toNat) = m := by
  have unit : (0 : ℚ) < 2 ^ q := by positivity
  rw [ratio_eq num den q, mul_le_mul_iff_left₀ unit] at low high
  rw [ratio_eq num den q, mul_lt_mul_iff_left₀ unit, mul_lt_mul_iff_left₀ unit] at inside
  exact roundHalfEven_of_ratio (Nat.mul_pos positive (twoTo_pos _)) low high inside

theorem le_floorLog2_iff (some : 0 < num) (positive : 0 < den) :
    e ≤ floorLog2 num den ↔ (2 : ℚ) ^ e ≤ num / den := by
  have positive' : (0 : ℚ) < den := by exact_mod_cast positive
  obtain ⟨low, high⟩ := floorLog2_spec some positive
  rw [← le_div_iff₀ positive'] at low
  rw [← div_lt_iff₀ positive'] at high
  constructor
  · intro below
    exact (zpow_le_zpow_right₀ one_le_two below).trans low
  · intro below
    exact Int.lt_add_one_iff.mp
      ((zpow_lt_zpow_iff_right₀ (one_lt_two : (1 : ℚ) < 2)).mp (below.trans_lt high))

/-! ### Rounding to a number -/

/-- The fraction lies in the interval of `m · 2^q`, which reaches half way to the next number and
half way to the one before. -/
def Rounds (m : Nat) (q : Int) (r : ℚ) : Prop :=
  if m % 2 = 0 then (m - gapBelow m q / 4 : ℚ) * 2 ^ q ≤ r ∧ r ≤ (m + 1 / 2) * 2 ^ q
  else (m - gapBelow m q / 4 : ℚ) * 2 ^ q < r ∧ r < (m + 1 / 2) * 2 ^ q

theorem Rounds.bounds (rounds : Rounds m q r) :
    (m - gapBelow m q / 4 : ℚ) * 2 ^ q ≤ r ∧ r ≤ (m + 1 / 2) * 2 ^ q := by
  unfold Rounds at rounds
  split at rounds
  · exact rounds
  · exact ⟨rounds.1.le, rounds.2.le⟩

theorem Rounds.inside (rounds : Rounds m q r) : m % 2 = 0 ∨
    ((m - gapBelow m q / 4 : ℚ) * 2 ^ q < r ∧ r < (m + 1 / 2) * 2 ^ q) := by
  unfold Rounds at rounds
  split at rounds
  · exact .inl ‹_›
  · exact .inr rounds

theorem gapBelow_le (m : Nat) (q : Int) : (gapBelow m q : ℚ) ≤ 2 := by
  unfold gapBelow
  split <;> norm_num

theorem decode_range (decoded : decode? x = some d) :
    d.mantissa < 2 * hiddenBit ∧ -1074 ≤ d.exponent ∧ d.exponent ≤ 971 ∧
      (d.exponent = -1074 ∨ hiddenBit ≤ d.mantissa) := by
  have fraction : x.toBits.toNat % hiddenBit < hiddenBit := Nat.mod_lt _ (by decide)
  obtain ⟨bounded, -, ⟨-, mantissa, exponent⟩ | ⟨biased, mantissa, exponent⟩⟩ := decode_cases decoded
  · omega
  · omega

section

variable (decoded : decode? x = some d) (some : 0 < num) (positive : 0 < den)
  (rounds : Rounds d.mantissa d.exponent (num / den))

include decoded some positive rounds

/-- The exponent of the number is taken, or the one below it where the fraction is a little less than
a power of two. -/
theorem exponent_of_rounds :
    max (floorLog2 num den - 52) (-1074) = d.exponent ∨
      (d.mantissa = hiddenBit ∧ -1074 < d.exponent ∧ (num / den : ℚ) < hiddenBit * 2 ^ d.exponent ∧
        max (floorLog2 num den - 52) (-1074) = d.exponent - 1) := by
  obtain ⟨small, least, -, full⟩ := decode_range decoded
  obtain ⟨low, high⟩ := rounds.bounds
  have gap := gapBelow_le d.mantissa d.exponent
  have unit : (0 : ℚ) < 2 ^ d.exponent := by positivity
  have power (k : Nat) : (2 : ℚ) ^ ((k : Int) + d.exponent) = 2 ^ k * 2 ^ d.exponent := by
    rw [zpow_add₀ two_ne_zero, zpow_natCast]
  have hidden : (hiddenBit : ℚ) = 2 ^ 52 := by norm_num [hiddenBit]
  have below : floorLog2 num den < (53 : Nat) + d.exponent := by
    rw [← not_le, le_floorLog2_iff some positive, power, not_le]
    have small : (d.mantissa : ℚ) + 1 ≤ 2 * hiddenBit := by exact_mod_cast small
    calc (num / den : ℚ) ≤ (d.mantissa + 1 / 2) * 2 ^ d.exponent := high
      _ < 2 ^ 53 * 2 ^ d.exponent := by
        apply mul_lt_mul_of_pos_right _ unit
        linarith
  rcases full with lowest | full
  · exact .inl (by omega)
  rcases le_or_gt ((2 : ℚ) ^ ((52 : Nat) + d.exponent)) (num / den) with reached | missed
  · have above := (le_floorLog2_iff some positive).mpr reached
    exact .inl (by omega)
  -- only the gap below a power of two leads here
  have strict : floorLog2 num den < (52 : Nat) + d.exponent := by
    rw [← not_le, le_floorLog2_iff some positive]
    exact not_le.mpr missed
  rw [power] at missed
  have above : (51 : Nat) + d.exponent ≤ floorLog2 num den := by
    rw [le_floorLog2_iff some positive, power]
    have full : (hiddenBit : ℚ) ≤ d.mantissa := by exact_mod_cast full
    refine le_trans (mul_le_mul_of_nonneg_right ?_ unit.le) low
    linarith
  by_cases equal : d.mantissa = hiddenBit
  · rcases Int.lt_or_le (-1074) d.exponent with greater | lowest
    · exact .inr ⟨equal, greater, hidden ▸ missed, by omega⟩
    · exact .inl (by omega)
  · exfalso
    have more : (hiddenBit : ℚ) + 1 ≤ d.mantissa := by exact_mod_cast Nat.lt_of_le_of_ne full (Ne.symm equal)
    refine absurd (le_trans (mul_le_mul_of_nonneg_right ?_ unit.le) low) (not_le.mpr missed)
    linarith

end

theorem Rounds.pos (rounds : Rounds m q r) (nonzero : 0 < m) : 0 < r := by
  have gap := gapBelow_le m q
  have nonzero : (1 : ℚ) ≤ m := by exact_mod_cast nonzero
  refine lt_of_lt_of_le (mul_pos ?_ (by positivity)) rounds.bounds.1
  linarith

theorem roundHalfEven_of_rounds (positive : 0 < den) (rounds : Rounds m q (num / den)) :
    roundHalfEven (num * twoTo (-q).toNat) (den * twoTo q.toNat) = m := by
  obtain ⟨low, high⟩ := rounds.bounds
  have gap := gapBelow_le m q
  have half : (m - 1 / 2 : ℚ) * 2 ^ q ≤ (m - gapBelow m q / 4) * 2 ^ q := by
    apply mul_le_mul_of_nonneg_right _ (by positivity)
    linarith
  exact roundHalfEven_scaled positive (half.trans low) high
    (rounds.inside.imp_right fun within => ⟨half.trans_lt within.1, within.2⟩)

/-- Just below a power of two the mantissa is rounded up to the double, on the finer grid there. -/
theorem roundHalfEven_below_power (positive : 0 < den) (greater : -1074 < q)
    (rounds : Rounds hiddenBit q (num / den)) (missed : (num / den : ℚ) < hiddenBit * 2 ^ q) :
    roundHalfEven (num * twoTo (-(q - 1)).toNat) (den * twoTo (q - 1).toNat) = 2 * hiddenBit := by
  have low := rounds.bounds.1
  have gap : gapBelow hiddenBit q = 1 := if_pos ⟨rfl, greater⟩
  have halved : (2 : ℚ) ^ q = 2 * 2 ^ (q - 1) := by
    rw [← zpow_one_add₀ two_ne_zero]
    congr 1
    ring
  have unit : (0 : ℚ) < 2 ^ (q - 1) := by positivity
  rw [gap, halved] at low
  rw [halved] at missed
  refine roundHalfEven_scaled positive ?_ ?_ (.inl rfl)
  all_goals
    push_cast at low ⊢
    linarith

/-- A fraction in the interval of a number is rounded to it. -/
theorem nearest_of_rounds (decoded : decode? x = some d) (nonzero : 0 < d.mantissa) (positive : 0 < den)
    (rounds : Rounds d.mantissa d.exponent (num / den)) : nearest d.negative num den = x := by
  have some : 0 < num := by
    have positive' : (0 : ℚ) < den := by exact_mod_cast positive
    exact_mod_cast (div_pos_iff_of_pos_right positive').mp (rounds.pos nonzero)
  have bits := bits_of_decode decoded
  rw [nearest, if_neg some.ne']
  dsimp only
  rcases exponent_of_rounds decoded some positive rounds with same | ⟨power, greater, missed, less⟩
  · rw [same, roundHalfEven_of_rounds positive rounds, bits, ofBits_toNat]
  · -- the doubled mantissa carries into the exponent
    have carried : (d.exponent - 1 + 1074).toNat * hiddenBit + 2 * hiddenBit =
        (d.exponent + 1074).toNat * hiddenBit + hiddenBit := by
      rw [show (d.exponent + 1074).toNat = (d.exponent - 1 + 1074).toNat + 1 by omega]
      ring
    rw [power] at rounds bits
    rw [less, roundHalfEven_below_power positive greater rounds missed, carried, bits, ofBits_toNat]

end Tableflow.Number
