import Tableflow.Proofs.NumberOrder

/-!
Whole numbers up to `2^53` are numbers: each is rounded to a number that is the integer again. The
whole part of a number is its exact value rounded towards zero.
-/

namespace Tableflow.Number

variable {x : Float} {negative : Bool} {num den m n : Nat} {q : Int}

theorem signBit_cases (negative : Bool) :
    signBit negative = 0 ∧ negative = false ∨ signBit negative = signWeight ∧ negative = true := by
  cases negative
  · exact .inl ⟨rfl, rfl⟩
  · exact .inr ⟨rfl, rfl⟩

/-- The bits of a full mantissa and an exponent in range are taken apart into the two. -/
theorem decode_of_bits (bits : x.toBits.toNat = signBit negative + ((q + 1074).toNat * hiddenBit + m))
    (full : hiddenBit ≤ m) (small : m < 2 * hiddenBit) (low : -1074 ≤ q) (high : q ≤ 971) :
    decode? x = some ⟨negative, m, q⟩ := by
  have sign := signBit_cases negative
  have biased : x.toBits.toNat / hiddenBit % 2048 = (q + 1075).toNat := by
    simp only [signWeight, hiddenBit] at *
    omega
  have fraction : x.toBits.toNat % hiddenBit = m - hiddenBit := by
    simp only [signWeight, hiddenBit] at *
    omega
  have marked : decide (signWeight ≤ x.toBits.toNat) = negative := by
    rcases sign with ⟨sign, rfl⟩ | ⟨sign, rfl⟩
    · rw [decide_eq_false_iff_not, bits, sign]
      simp only [signWeight, hiddenBit] at *
      omega
    · rw [decide_eq_true_iff, bits, sign]
      omega
  unfold decode?
  dsimp only
  rw [biased, fraction, marked, if_neg (by omega), if_neg (by omega), Nat.sub_add_cancel full]
  congr 2
  omega

/-- A fraction that is a full mantissa with an exponent in range is rounded to just that. -/
theorem decode_nearest (nonzero : 0 < num) (positive : 0 < den)
    (exact : num * twoTo (-q).toNat = m * (den * twoTo q.toNat)) (full : hiddenBit ≤ m)
    (small : m < 2 * hiddenBit) (low : -1074 ≤ q) (high : q ≤ 971) :
    decode? (nearest negative num den) = some ⟨negative, m, q⟩ := by
  have above : ((52 : Nat) : Int) + q ≤ floorLog2 num den := le_floorLog2 nonzero positive exact full
  have below : floorLog2 num den < ((53 : Nat) : Int) + q := floorLog2_lt nonzero positive exact small
  have exponent : max (floorLog2 num den - 52) (-1074) = q := by omega
  have scale : 0 < den * twoTo q.toNat := Nat.mul_pos positive (twoTo_pos _)
  have finite : (q + 1074).toNat * hiddenBit + m ≤ infinityBits := by
    simp only [infinityBits, hiddenBit] at *
    omega
  have made : nearest negative num den =
      Float.ofBits (signBit negative + ((q + 1074).toNat * hiddenBit + m)).toUInt64 := by
    unfold nearest
    rw [if_neg nonzero.ne']
    dsimp only
    rw [exponent, exact, roundHalfEven_exact scale, Nat.min_eq_left finite]
  refine decode_of_bits ?_ full small low high
  have sign := signBit_cases negative
  rw [made]
  apply toNat_ofBits <;> simp only [signWeight, infinityBits, hiddenBit] at * <;> omega

theorem isFinite_of_decode {d : Dyadic} (decoded : decode? x = some d) : x.isFinite = true := by
  obtain ⟨bounded, -, -⟩ := decode_cases decoded
  rw [isFinite_iff, natAbs_position, magnitude_eq, infinityBits]
  simp only [hiddenBit] at bounded ⊢
  omega

theorem toInt?_of_decode (decoded : decode? x = some ⟨negative, m, q⟩)
    (exact : n * twoTo (-q).toNat = m * twoTo q.toNat) : toInt? x = some (withSign negative n) := by
  unfold toInt?
  rw [decoded]
  dsimp only
  rw [← exact, Nat.mul_mod_left, if_pos rfl, Nat.mul_div_cancel _ (twoTo_pos _)]

/-- A natural number up to `2^53` is a full mantissa with an exponent. -/
theorem exists_mantissa (nonzero : 0 < n) (small : n ≤ 2 * hiddenBit) : ∃ (m : Nat) (q : Int),
    n * twoTo (-q).toNat = m * twoTo q.toNat ∧ hiddenBit ≤ m ∧ m < 2 * hiddenBit ∧ -52 ≤ q ∧ q ≤ 1 := by
  -- The greatest has one bit more than a mantissa holds, and alone needs an exponent above zero.
  rcases Nat.lt_or_eq_of_le small with less | rfl
  · have bound : n.log2 < 53 := (Nat.log2_lt nonzero.ne').mpr less
    have power : 2 ^ n.log2 * 2 ^ (52 - n.log2) = 2 ^ 52 := by
      rw [← Nat.pow_add, Nat.add_sub_cancel' (by omega)]
    have above : 2 ^ n.log2 * 2 ^ (52 - n.log2) ≤ n * 2 ^ (52 - n.log2) :=
      Nat.mul_le_mul_right _ (Nat.log2_self_le nonzero.ne')
    have below : n * 2 ^ (52 - n.log2) < 2 ^ (n.log2 + 1) * 2 ^ (52 - n.log2) :=
      Nat.mul_lt_mul_of_pos_right Nat.lt_log2_self (Nat.two_pow_pos _)
    refine ⟨n * twoTo (52 - n.log2), (n.log2 : Int) - 52, ?_, ?_, ?_, by omega, by omega⟩
    · rw [show (-((n.log2 : Int) - 52)).toNat = 52 - n.log2 by omega,
        show ((n.log2 : Int) - 52).toNat = 0 by omega]
      exact (Nat.mul_one _).symm
    · exact power.symm.trans_le above
    · rw [Nat.pow_succ, Nat.mul_right_comm, power] at below
      exact below.trans_eq (by decide)
  · exact ⟨hiddenBit, 1, rfl, by decide, by decide, by decide, by decide⟩

theorem decode_nearest_zero (negative : Bool) :
    decode? (nearest negative 0 1) = some ⟨negative, 0, -1074⟩ := by
  cases negative <;> rfl

theorem toInt?_whole (small : n ≤ 2 * hiddenBit) :
    toInt? (nearest negative n 1) = some (withSign negative n) := by
  rcases Nat.eq_zero_or_pos n with rfl | positive
  · apply toInt?_of_decode (decode_nearest_zero negative)
    rw [Nat.zero_mul, Nat.zero_mul]
  · obtain ⟨m, q, exact, full, less, low, high⟩ := exists_mantissa positive small
    refine toInt?_of_decode (decode_nearest positive Nat.one_pos ?_ full less (by omega) (by omega)) exact
    rw [exact, Nat.one_mul]

theorem withSign_natAbs (n : Int) : withSign (decide (n < 0)) n.natAbs = n := by
  by_cases negative : n < 0
  · rw [decide_eq_true negative, withSign, if_pos rfl]
    omega
  · rw [decide_eq_false negative, withSign, if_neg Bool.false_ne_true]
    omega

theorem toInt?_ofInt {n : Int} (small : n.natAbs ≤ 2 * hiddenBit) : toInt? (ofInt n) = some n := by
  rw [ofInt, toInt?_whole small, withSign_natAbs]

/-! ### Exact values -/

/-- The value `±m · 2^q`. -/
def Dyadic.value (d : Dyadic) : ℚ := withSign d.negative d.mantissa * 2 ^ d.exponent

/-- The number is finite and has the value `r`. -/
def IsExactly (x : Float) (r : ℚ) : Prop := ∃ d, decode? x = some d ∧ d.value = r

/-- The integer next to `r` on the side of zero. -/
def towardZero (r : ℚ) : Int := if 0 ≤ r then ⌊r⌋ else ⌈r⌉

theorem value_eq (d : Dyadic) : d.value = (if d.negative then -1 else 1) *
    ((d.mantissa * twoTo d.exponent.toNat : Nat) / (twoTo (-d.exponent).toNat : Nat) : ℚ) := by
  rw [Dyadic.value, two_zpow_eq, withSign]
  split <;> push_cast <;> ring

theorem toInt?_eq_some {n : Int} : toInt? x = some n ↔ ∃ d, decode? x = some d ∧
    twoTo (-d.exponent).toNat ∣ d.mantissa * twoTo d.exponent.toNat ∧
    withSign d.negative (d.mantissa * twoTo d.exponent.toNat / twoTo (-d.exponent).toNat) = n := by
  unfold toInt?
  cases decode? x with
  | none => simp
  | some d => simp [Nat.dvd_iff_mod_eq_zero]

theorem isExactly_of_toInt? {n : Int} (integer : toInt? x = some n) : IsExactly x n := by
  obtain ⟨d, decoded, divides, rfl⟩ := toInt?_eq_some.mp integer
  refine ⟨d, decoded, ?_⟩
  have positive : (twoTo (-d.exponent).toNat : ℚ) ≠ 0 := Nat.cast_ne_zero.mpr (twoTo_pos _).ne'
  rw [value_eq, ← Nat.cast_div divides positive, withSign]
  split
  · rw [neg_one_mul, Int.cast_neg, Int.cast_natCast]
  · rw [one_mul, Int.cast_natCast]

theorem truncate?_of_toInt? {n : Int} (integer : toInt? x = some n) : truncate? x = some n := by
  obtain ⟨d, decoded, _, rfl⟩ := toInt?_eq_some.mp integer
  rw [truncate?, decoded]
  rfl

theorem towardZero_neg (r : ℚ) : towardZero (-r) = -towardZero r := by
  unfold towardZero
  rcases lt_trichotomy r 0 with below | rfl | above
  · rw [if_pos (neg_nonneg.mpr below.le), if_neg below.not_ge, Int.floor_neg]
  · simp
  · rw [if_neg (neg_nonneg.not.mpr above.not_ge), if_pos above.le, Int.ceil_neg]

theorem towardZero_ratio (num den : Nat) : towardZero (num / den) = (num / den : Nat) := by
  rw [towardZero, if_pos (by positivity), Rat.floor_natCast_div_natCast, Int.natCast_div]

/-- Cutting off the fraction rounds the exact value towards zero. -/
theorem truncate?_eq (x : Float) : truncate? x = (decode? x).map fun d => towardZero d.value := by
  unfold truncate?
  congr 1
  funext d
  rw [value_eq, withSign]
  split
  · rw [neg_one_mul, towardZero_neg, towardZero_ratio]
  · rw [one_mul, towardZero_ratio]

end Tableflow.Number
