import Mathlib
import Tableflow.Number.Binary

/-!
Rounding is exact where it can be: a fraction that is a number is rounded to that number. So a
whole number that is read back from its integer is the same, a zero up to its sign.
-/

namespace Tableflow.Number

open Float.Model (Format UnpackedFloat)
open Float.Model.UnpackedFloat (unpackExponent)

variable {x : Float} {d : Dyadic}

/-! ### Numbers taken apart -/

theorem exists_decode (finite : x.isFinite = true) : ∃ d, decode? x = some d := by
  cases decoded : decode? x with
  | some d => exact ⟨d, rfl⟩
  | none =>
    unfold decode? at decoded
    dsimp only at decoded
    split at decoded
    · rename_i full
      have value : (@unpackExponent Format.binary64 x.toBits.toBitVec).toNat =
          x.toBits.toNat / hiddenBit % 2048 := by
        simp [unpackExponent, hiddenBit, Nat.shiftRight_eq_div_pow]
      have top : @unpackExponent Format.binary64 x.toBits.toBitVec = -1#11 :=
        BitVec.eq_of_toNat_eq (value.trans full)
      change (UnpackedFloat.unpack Format.binary64 x.toBits.toBitVec).isFinite = true at finite
      simp only [UnpackedFloat.unpack, top, if_true] at finite
      split at finite <;> cases finite
    · split at decoded <;> cases decoded

/-- A number is taken apart in one of two ways: its exponent is the least one, or its mantissa has
the leading bit. -/
theorem decode_cases (decoded : decode? x = some d) :
    x.toBits.toNat / hiddenBit % 2048 ≠ 2047 ∧ d.negative = decide (signWeight ≤ x.toBits.toNat) ∧
    ((x.toBits.toNat / hiddenBit % 2048 = 0 ∧ d.mantissa = x.toBits.toNat % hiddenBit ∧
        d.exponent = -1074) ∨
      (x.toBits.toNat / hiddenBit % 2048 ≠ 0 ∧ d.mantissa = x.toBits.toNat % hiddenBit + hiddenBit ∧
        d.exponent = (x.toBits.toNat / hiddenBit % 2048 : Nat) - 1075)) := by
  unfold decode? at decoded
  dsimp only at decoded
  split at decoded
  · cases decoded
  · rename_i bounded
    split at decoded <;> rename_i large <;> obtain rfl := Option.some.inj decoded
    · exact ⟨bounded, rfl, .inl ⟨large, rfl, rfl⟩⟩
    · exact ⟨bounded, rfl, .inr ⟨large, rfl, rfl⟩⟩

theorem signBit_eq {bits : Nat} (bound : bits < 2 * signWeight) :
    signBit (decide (signWeight ≤ bits)) = bits / signWeight * signWeight := by
  by_cases negative : signWeight ≤ bits
  · simp only [signBit, negative, decide_true, if_true]
    simp only [signWeight] at bound negative ⊢
    omega
  · simp [signBit, negative, Nat.div_eq_of_lt (Nat.not_le.mp negative)]

/-- The parts of a number give its bits. -/
theorem bits_of_decode (decoded : decode? x = some d) :
    signBit d.negative + min ((d.exponent + 1074).toNat * hiddenBit + d.mantissa) infinityBits =
      x.toBits.toNat := by
  have bound : x.toBits.toNat < 2 * signWeight := x.toBits.toNat_lt
  obtain ⟨bounded, sign, fields⟩ := decode_cases decoded
  rw [sign, signBit_eq bound, infinityBits]
  rcases fields with ⟨large, mantissa, exponent⟩ | ⟨large, mantissa, exponent⟩ <;>
    rw [mantissa, exponent] <;> simp only [signWeight, hiddenBit] at * <;> omega

/-! ### Powers of two -/

theorem twoTo_pos (n : Nat) : 0 < twoTo n := Nat.pow_pos (by decide)

theorem two_zpow_eq (e : Int) : (2 : ℚ) ^ e = (twoTo e.toNat : ℚ) / twoTo (-e).toNat := by
  have cast (n : Nat) : ((twoTo n : Nat) : ℚ) = 2 ^ n := by
    simp only [twoTo, Nat.pow_eq, Nat.cast_pow, Nat.cast_ofNat]
  rw [cast, cast]
  rcases le_total 0 e with above | below
  · obtain ⟨n, rfl⟩ := Int.eq_ofNat_of_zero_le above
    simp
  · obtain ⟨n, size⟩ := Int.eq_ofNat_of_zero_le (Int.neg_nonneg_of_nonpos below)
    obtain rfl : e = -(n : Int) := by omega
    simp

/-! ### The leading bit of a fraction -/

section

variable {num den : Nat}

theorem scaled_le_iff {e : Int} :
    den * twoTo e.toNat ≤ num * twoTo (-e).toNat ↔ (2 : ℚ) ^ e * den ≤ num := by
  have positive : (0 : ℚ) < twoTo (-e).toNat := by exact_mod_cast twoTo_pos _
  rw [two_zpow_eq, div_mul_eq_mul_div, div_le_iff₀ positive, mul_comm (twoTo e.toNat : ℚ)]
  exact_mod_cast Iff.rfl

theorem floorLog2_spec (some : 0 < num) (positive : 0 < den) :
    (2 : ℚ) ^ floorLog2 num den * den ≤ num ∧ (num : ℚ) < 2 ^ (floorLog2 num den + 1) * den := by
  have lowNum : (2 : ℚ) ^ (num.log2 : Int) ≤ num := by exact_mod_cast Nat.log2_self_le some.ne'
  have highNum : (num : ℚ) < 2 ^ ((num.log2 : Int) + 1) := by exact_mod_cast Nat.lt_log2_self
  have lowDen : (2 : ℚ) ^ (den.log2 : Int) ≤ den := by exact_mod_cast Nat.log2_self_le positive.ne'
  have highDen : (den : ℚ) < 2 ^ ((den.log2 : Int) + 1) := by exact_mod_cast Nat.lt_log2_self
  unfold floorLog2
  dsimp only
  split
  · rename_i reached
    refine ⟨scaled_le_iff.mp reached, highNum.trans_le ?_⟩
    calc (2 : ℚ) ^ ((num.log2 : Int) + 1)
        = 2 ^ ((num.log2 : Int) - den.log2 + 1) * 2 ^ (den.log2 : Int) := by
          rw [← zpow_add₀ two_ne_zero]
          congr 1
          ring
      _ ≤ 2 ^ ((num.log2 : Int) - den.log2 + 1) * den := by gcongr
  · rename_i missed
    have missed := not_le.mp (mt scaled_le_iff.mpr missed)
    refine ⟨?_, by simpa using missed⟩
    calc (2 : ℚ) ^ ((num.log2 : Int) - den.log2 - 1) * den
        ≤ 2 ^ ((num.log2 : Int) - den.log2 - 1) * 2 ^ ((den.log2 : Int) + 1) := by gcongr
      _ = 2 ^ (num.log2 : Int) := by
          rw [← zpow_add₀ two_ne_zero]
          congr 1
          ring
      _ ≤ num := lowNum

variable {m k : Nat} {q : Int}

/-- The fraction `num / den` is `m · 2^q`. -/
theorem cast_of_scaled (exact : num * twoTo (-q).toNat = m * (den * twoTo q.toNat)) :
    (num : ℚ) = m * 2 ^ q * den := by
  have positive : (0 : ℚ) < twoTo (-q).toNat := by exact_mod_cast twoTo_pos _
  have scaled : (num * twoTo (-q).toNat : ℚ) = m * (den * twoTo q.toNat) := by exact_mod_cast exact
  rw [two_zpow_eq]
  field_simp
  linarith

theorem floorLog2_lt (some : 0 < num) (positive : 0 < den)
    (exact : num * twoTo (-q).toNat = m * (den * twoTo q.toNat)) (small : m < 2 ^ k) :
    floorLog2 num den < k + q := by
  have positive' : (0 : ℚ) < den := by exact_mod_cast positive
  have small' : (m : ℚ) < 2 ^ k := by exact_mod_cast small
  refine (zpow_lt_zpow_iff_right₀ one_lt_two).mp (lt_of_mul_lt_mul_right ?_ positive'.le)
  calc (2 : ℚ) ^ floorLog2 num den * den
      ≤ num := (floorLog2_spec some positive).1
    _ = m * 2 ^ q * den := cast_of_scaled exact
    _ < 2 ^ k * 2 ^ q * den := by gcongr
    _ = 2 ^ (k + q) * den := by rw [zpow_add₀ two_ne_zero, zpow_natCast]

theorem le_floorLog2 (some : 0 < num) (positive : 0 < den)
    (exact : num * twoTo (-q).toNat = m * (den * twoTo q.toNat)) (large : 2 ^ k ≤ m) :
    k + q ≤ floorLog2 num den := by
  have positive' : (0 : ℚ) < den := by exact_mod_cast positive
  have large' : (2 : ℚ) ^ k ≤ m := by exact_mod_cast large
  refine Int.lt_add_one_iff.mp
    ((zpow_lt_zpow_iff_right₀ (one_lt_two : (1 : ℚ) < 2)).mp (lt_of_mul_lt_mul_right ?_ positive'.le))
  calc (2 : ℚ) ^ (k + q) * den
      = 2 ^ k * 2 ^ q * den := by rw [zpow_add₀ two_ne_zero, zpow_natCast]
    _ ≤ m * 2 ^ q * den := by gcongr
    _ = num := (cast_of_scaled exact).symm
    _ < 2 ^ (floorLog2 num den + 1) * den := (floorLog2_spec some positive).2

end

/-! ### Rounding -/

theorem roundHalfEven_exact {den : Nat} (positive : 0 < den) (m : Nat) :
    roundHalfEven (m * den) den = m := by
  simp only [roundHalfEven, Nat.mul_div_cancel m positive, Nat.mul_mod_left]
  split
  · omega
  · rfl

variable {num den : Nat}

/-- A number has the one exponent with which its mantissa is full, or the least one. -/
theorem exponent_eq (decoded : decode? x = some d) (some : 0 < num) (positive : 0 < den)
    (exact : num * twoTo (-d.exponent).toNat = d.mantissa * (den * twoTo d.exponent.toNat)) :
    max (floorLog2 num den - 52) (-1074) = d.exponent := by
  have fraction : x.toBits.toNat % hiddenBit < 2 ^ 52 := Nat.mod_lt _ (by decide)
  have hidden : hiddenBit = 2 ^ 52 := rfl
  obtain ⟨-, -, ⟨-, mantissa, exponent⟩ | ⟨biased, mantissa, exponent⟩⟩ := decode_cases decoded
  · have below := floorLog2_lt some positive exact (mantissa ▸ fraction)
    omega
  · have above : ((52 : Nat) : Int) + d.exponent ≤ _ := le_floorLog2 some positive exact (by omega)
    have below : _ < ((53 : Nat) : Int) + d.exponent := floorLog2_lt some positive exact (by omega)
    omega

theorem ofBits_toNat (x : Float) : Float.ofBits x.toBits.toNat.toUInt64 = x := by
  rw [show x.toBits.toNat.toUInt64 = x.toBits from UInt64.ofNat_toNat, Float.ofBits_toBits]

/-- Rounding leaves alone what a number is exactly. -/
theorem nearest_of_decode (decoded : decode? x = some d) (positive : 0 < den)
    (exact : num * twoTo (-d.exponent).toNat = d.mantissa * (den * twoTo d.exponent.toNat)) :
    nearest d.negative num den = x := by
  have bits := bits_of_decode decoded
  have scale : 0 < den * twoTo d.exponent.toNat := Nat.mul_pos positive (twoTo_pos _)
  unfold nearest
  dsimp only
  split
  · rename_i zero
    have empty : d.mantissa = 0 := by
      rw [zero, Nat.zero_mul] at exact
      exact (Nat.mul_eq_zero.mp exact.symm).resolve_right scale.ne'
    -- a full mantissa has the leading bit, so this one belongs to the least exponent
    have least : d.exponent = -1074 := by
      obtain ⟨-, -, ⟨-, -, exponent⟩ | ⟨-, mantissa, -⟩⟩ := decode_cases decoded
      · exact exponent
      · simp [empty, hiddenBit] at mantissa
    rw [empty, least, show ((-1074 : Int) + 1074).toNat * hiddenBit + 0 = 0 from rfl,
      Nat.zero_min, Nat.add_zero] at bits
    rw [bits, ofBits_toNat]
  · rename_i nonzero
    rw [exponent_eq decoded (Nat.pos_of_ne_zero nonzero) positive exact, exact,
      roundHalfEven_exact scale, bits, ofBits_toNat]

/-! ### Zeros of both signs -/

/-- The number, a zero without its sign. -/
def unsigned (x : Float) : Float := if x == 0 then 0 else x

theorem beq_zero_iff : (x == 0) = true ↔ x = 0 ∨ x = -0 := by
  have ne_nan {y : Float} (other : y.toBits ≠ Float.nan.toBits) : y ≠ .nan := fun same =>
    other (congrArg Float.toBits same)
  rw [Float.beq_iff_ne_nan_and_eq]
  constructor
  · rintro ⟨-, -, same | ⟨same, -⟩ | ⟨same, -⟩⟩
    · exact .inl same
    · exact .inl same
    · exact .inr same
  · rintro (rfl | rfl)
    · exact ⟨ne_nan (by decide), ne_nan (by decide), .inl rfl⟩
    · exact ⟨ne_nan (by decide), ne_nan (by decide), .inr (.inr ⟨rfl, rfl⟩)⟩

theorem mantissa_eq_zero_iff (decoded : decode? x = some d) : d.mantissa = 0 ↔ x = 0 ∨ x = -0 := by
  constructor
  · intro zero
    have same : nearest d.negative 0 1 = x :=
      nearest_of_decode decoded Nat.one_pos (by rw [zero, Nat.zero_mul, Nat.zero_mul])
    rw [← same]
    cases d.negative
    · exact .inl rfl
    · exact .inr rfl
  · rintro (rfl | rfl) <;> cases decoded <;> rfl

theorem unsigned_eq (decoded : decode? x = some d) :
    unsigned x = if d.mantissa = 0 then 0 else x := by
  simp only [unsigned, beq_zero_iff, mantissa_eq_zero_iff decoded]

theorem unsigned_eq_self (signless : x ≠ -0) : unsigned x = x := by
  unfold unsigned
  split
  · rename_i zero
    exact ((beq_zero_iff.mp zero).resolve_right signless).symm
  · rfl

/-- Finite numbers equal themselves, and zeros of both signs equal each other. -/
theorem unsigned_beq (finite : x.isFinite = true) : (unsigned x == x) = true := by
  unfold unsigned
  split
  · rename_i zero
    rcases beq_zero_iff.mp zero with rfl | rfl <;> rfl
  · rw [Float.beq_self_iff]
    rintro rfl
    cases finite

theorem isFinite_unsigned (finite : x.isFinite = true) : (unsigned x).isFinite = true := by
  unfold unsigned
  split
  · rfl
  · exact finite

/-! ### Whole numbers -/

theorem natAbs_withSign (negative : Bool) (n : Nat) : (withSign negative n).natAbs = n := by
  cases negative <;> simp [withSign]

theorem withSign_neg_iff (negative : Bool) {n : Nat} (positive : 0 < n) :
    withSign negative n < 0 ↔ negative = true := by
  cases negative <;> simp only [withSign, if_true, Bool.false_eq_true, if_false, iff_true, iff_false]
  all_goals omega

/-- A whole number is the number nearest to its integer. -/
theorem ofInt_of_toInt? {n : Int} (integer : toInt? x = some n) : ofInt n = unsigned x := by
  rw [toInt?] at integer
  split at integer
  · cases integer
  rename_i d decoded
  split at integer
  · rename_i divides
    obtain rfl := Option.some.inj integer
    generalize size_eq : d.mantissa * twoTo d.exponent.toNat / twoTo (-d.exponent).toNat = size
    have exact : size * twoTo (-d.exponent).toNat = d.mantissa * (1 * twoTo d.exponent.toNat) := by
      rw [← size_eq, Nat.div_mul_cancel (Nat.dvd_of_mod_eq_zero divides), Nat.one_mul]
    rw [unsigned_eq decoded, ofInt, natAbs_withSign]
    by_cases zero : d.mantissa = 0
    · obtain rfl : size = 0 := by simp [← size_eq, zero]
      rw [if_pos zero]
      cases d.negative <;> rfl
    · have positive : 0 < size := by
        refine Nat.pos_of_ne_zero fun none => ?_
        rw [none, Nat.zero_mul, Nat.one_mul] at exact
        exact (Nat.mul_pos (Nat.pos_of_ne_zero zero) (twoTo_pos _)).ne exact
      have sign : decide (withSign d.negative size < 0) = d.negative := by
        rw [Bool.eq_iff_iff, decide_eq_true_iff, withSign_neg_iff d.negative positive]
      rw [if_neg zero, sign]
      exact nearest_of_decode decoded Nat.one_pos exact
  · cases integer

end Tableflow.Number
