import Mathlib
import Tableflow.Cell.Order
import Tableflow.Proofs.Exact

/-!
Numbers by their bits. The position of a number is its bit pattern, counted down from zero if the
number is negative. It tells whether the number is finite or not a number at all, and all other
numbers are ordered by it.
-/

namespace Tableflow.Number

open Float.Model (Format UnpackedFloat)
open Float.Model.UnpackedFloat (Sign unpack unpackExponent unpackMantissa unpackSign)

variable {x y : Float} {s : Sign} {p q : Int}

/-- Zeros of both signs have position 0. -/
def position (x : Float) : Int :=
  let bits : Nat := x.toBits.toNat
  if signWeight ≤ bits then (signWeight : Int) - bits else bits

/-! ### The fields of a bit pattern -/

theorem toNat_unpackExponent (bits : BitVec 64) :
    (@unpackExponent Format.binary64 bits).toNat = bits.toNat / hiddenBit % 2048 := by
  simp [unpackExponent, hiddenBit, Nat.shiftRight_eq_div_pow]

theorem toNat_unpackMantissa (bits : BitVec 64) :
    (@unpackMantissa Format.binary64 bits).toNat = bits.toNat % hiddenBit := by
  simp [unpackMantissa, hiddenBit]

theorem toNat_unpackSign (bits : BitVec 64) :
    (@unpackSign Format.binary64 bits).toNat = bits.toNat / signWeight := by
  have bound : bits.toNat < 2 * signWeight := bits.isLt
  have single : bits.toNat / signWeight < 2 := by
    simp only [signWeight] at bound ⊢
    omega
  simpa [unpackSign, signWeight, Nat.shiftRight_eq_div_pow] using single

theorem magnitude_eq (bits : Nat) :
    bits % signWeight = bits / hiddenBit % 2048 * hiddenBit + bits % hiddenBit := by
  simp only [signWeight, hiddenBit]
  omega

theorem or_hiddenBit {fraction : Nat} (small : fraction < hiddenBit) :
    (1#1).toNat <<< 52 ||| fraction = fraction + hiddenBit := by
  have hidden : hiddenBit = 2 ^ 52 := rfl
  rw [hidden] at small ⊢
  change 2 ^ 52 ||| fraction = _
  rw [Nat.or_comm, Nat.or_two_pow_eq_add_of_lt small]

def signed : Sign → Nat → Int
  | .negative, n => -n
  | .positive, n => n

theorem natAbs_signed (s : Sign) (n : Nat) : (signed s n).natAbs = n := by
  cases s <;> simp [signed]

theorem position_eq_signed (x : Float) :
    position x = signed (Sign.ofBitVec (@unpackSign Format.binary64 x.toBits.toBitVec))
      (x.toBits.toNat % signWeight) := by
  have bound : x.toBits.toNat < 2 * signWeight := x.toBits.toNat_lt
  have sign := toNat_unpackSign x.toBits.toBitVec
  rw [UInt64.toNat_toBitVec] at sign
  unfold position Sign.ofBitVec
  simp only [← BitVec.toNat_inj, sign]
  split <;> split <;> simp only [signed, signWeight, BitVec.toNat_ofNat] at * <;> omega

/-- `u` is the number at position `p`, taken apart. A finite number has a full mantissa or the least
exponent. -/
def Unpacks (p : Int) : UnpackedFloat → Prop
  | .notANumber => infinityBits < p.natAbs
  | .infinity s => p = signed s infinityBits
  | .zero _ => p = 0
  | .finite s m e _ => m < 2 * hiddenBit ∧ -1074 ≤ e ∧ (e = -1074 ∨ hiddenBit ≤ m) ∧
      (e + 1074).toNat * hiddenBit + m < infinityBits ∧
      p = signed s ((e + 1074).toNat * hiddenBit + m)

theorem unpacks (x : Float) : Unpacks (position x) (unpack Format.binary64 x.toBits.toBitVec) := by
  have exponent := toNat_unpackExponent x.toBits.toBitVec
  have mantissa := toNat_unpackMantissa x.toBits.toBitVec
  have bias : ((Format.binary64.exponentBias : Nat) : Int) = 1023 := rfl
  have narrow : x.toBits.toNat / hiddenBit % 2048 < 2048 := Nat.mod_lt _ (by decide)
  have small : x.toBits.toNat % hiddenBit < hiddenBit := Nat.mod_lt _ (by decide)
  rw [UInt64.toNat_toBitVec] at exponent mantissa
  rw [position_eq_signed, magnitude_eq]
  unfold unpack
  simp only [← BitVec.toNat_inj, exponent, mantissa, BitVec.toNat_append, bias]
  generalize Sign.ofBitVec (@unpackSign Format.binary64 x.toBits.toBitVec) = sign
  generalize x.toBits.toNat / hiddenBit % 2048 = biased at *
  generalize x.toBits.toNat % hiddenBit = fraction at *
  split
  · rename_i top
    change biased = 2047 at top
    split
    · rename_i clear
      change fraction = 0 at clear
      simp [Unpacks, infinityBits, top, clear]
    · rename_i payload
      change fraction ≠ 0 at payload
      simp only [Unpacks, infinityBits, natAbs_signed, top]
      omega
  · rename_i ordinary
    change biased ≠ 2047 at ordinary
    split
    · rename_i least
      change biased = 0 at least
      subst least
      split
      · rename_i clear
        change fraction = 0 at clear
        cases sign <;> simp [Unpacks, clear, signed]
      · refine ⟨by omega, by omega, .inl (by omega), ?_, by simp⟩
        simp [infinityBits, hiddenBit] at small ⊢
        omega
    · rename_i large
      change biased ≠ 0 at large
      have place : ((biased : Int) - (1023 + (52 : Nat)) + 1074).toNat = biased - 1 := by omega
      simp only [Unpacks, or_hiddenBit small, place]
      refine ⟨by omega, by omega, .inr (by omega), ?_, congrArg (signed sign) ?_⟩
      · simp only [infinityBits, hiddenBit] at small ⊢
        omega
      · simp only [hiddenBit]
        omega

variable {u v : UnpackedFloat}

theorem Unpacks.isFinite_iff (parts : Unpacks p u) : u.isFinite = true ↔ p.natAbs < infinityBits := by
  cases u with
  | notANumber => simpa [UnpackedFloat.isFinite] using Nat.le_of_lt parts
  | infinity s => simp [UnpackedFloat.isFinite, show p = _ from parts, natAbs_signed]
  | zero s => simp [UnpackedFloat.isFinite, show p = 0 from parts, infinityBits, hiddenBit]
  | finite s m e nonzero =>
    obtain ⟨_, _, _, below, rfl⟩ := parts
    simpa [UnpackedFloat.isFinite, natAbs_signed] using below

theorem Unpacks.isNaN_iff (parts : Unpacks p u) : u.isNaN = true ↔ infinityBits < p.natAbs := by
  cases u with
  | notANumber => exact ⟨fun _ => parts, fun _ => rfl⟩
  | infinity s => simp [UnpackedFloat.isNaN, show p = _ from parts, natAbs_signed]
  | zero s => simp [UnpackedFloat.isNaN, show p = 0 from parts]
  | finite s m e nonzero =>
    obtain ⟨_, _, _, below, rfl⟩ := parts
    simpa [UnpackedFloat.isNaN, natAbs_signed] using below.le

theorem isFinite_iff : x.isFinite = true ↔ (position x).natAbs < infinityBits :=
  (unpacks x).isFinite_iff

theorem ne_nan_iff : x ≠ .nan ↔ (position x).natAbs ≤ infinityBits := by
  have test : x.isNaN = true ↔ x = .nan := by rw [Float.isNaN_eq_decide_eq_nan, decide_eq_true_iff]
  rw [Ne, ← test, ← Nat.not_lt]
  exact not_congr (unpacks x).isNaN_iff

theorem ne_nan_of_isFinite (finite : x.isFinite = true) : x ≠ .nan :=
  ne_nan_iff.mpr (isFinite_iff.mp finite).le

/-! ### Order -/

theorem compare_natCast (n k : Nat) : compare (n : Int) k = compare n k := by
  have mono : StrictMono fun n : Nat => (n : Int) := Nat.strictMono_cast
  simpa only [cmp_eq_compare] using mono.cmp_map_eq n k

theorem compare_neg_natCast (n k : Nat) : compare (-(n : Int)) (-k) = (compare n k).swap := by
  have anti : StrictAnti fun n : Nat => -(n : Int) := by
    intro n k less
    show -(k : Int) < -n
    omega
  rw [Nat.compare_swap]
  simpa only [cmp_eq_compare] using anti.cmp_map_eq n k

/-- Exponents are compared first, since a greater exponent goes with a full mantissa. -/
theorem compare_magnitude {m k : Nat} {e f : Int} (small : m < 2 * hiddenBit) (least : -1074 ≤ e)
    (full : e = -1074 ∨ hiddenBit ≤ m) (small' : k < 2 * hiddenBit) (least' : -1074 ≤ f)
    (full' : f = -1074 ∨ hiddenBit ≤ k) :
    (compare e f).then (compare m k) =
      compare ((e + 1074).toNat * hiddenBit + m) ((f + 1074).toNat * hiddenBit + k) := by
  simp only [hiddenBit] at *
  rcases lt_trichotomy e f with below | rfl | above
  · rw [compare_lt_iff_lt.mpr below, Ordering.lt_then, eq_comm, compare_lt_iff_lt]
    omega
  · have mono : StrictMono ((e + 1074).toNat * 0x10000000000000 + ·) := fun _ _ less =>
      Nat.add_lt_add_left less _
    rw [compare_eq_iff_eq.mpr rfl, Ordering.eq_then]
    simpa only [cmp_eq_compare] using (mono.cmp_map_eq m k).symm
  · rw [compare_gt_iff_gt.mpr above, Ordering.gt_then, eq_comm, compare_gt_iff_gt]
    omega

theorem some_lt_eq_compare (less : p < q) : some .lt = some (compare p q) := by
  rw [compare_lt_iff_lt.mpr less]

theorem some_gt_eq_compare (greater : q < p) : some .gt = some (compare p q) := by
  rw [compare_gt_iff_gt.mpr greater]

theorem Unpacks.compare_finite {r : Sign} {m k : Nat} {e f : Int} {nonzero : 0 < m} {nonzero' : 0 < k}
    (parts : Unpacks p (.finite s m e nonzero)) (parts' : Unpacks q (.finite r k f nonzero')) :
    UnpackedFloat.compare (.finite s m e nonzero) (.finite r k f nonzero') = some (compare p q) := by
  obtain ⟨small, least, full, _, rfl⟩ := parts
  obtain ⟨small', least', full', _, rfl⟩ := parts'
  have sizes := compare_magnitude small least full small' least' full'
  cases s <;> cases r
  · show some ((compare e f).then (compare m k)).swap = _
    rw [sizes, signed, signed, compare_neg_natCast]
  · exact some_lt_eq_compare (by simp only [signed]; omega)
  · exact some_gt_eq_compare (by simp only [signed]; omega)
  · show some ((compare e f).then (compare m k)) = _
    rw [sizes, signed, signed, compare_natCast]

/-- Infinities are beyond all finite numbers. -/
theorem Unpacks.compare_infinity (parts : Unpacks p u) (finite : u.isFinite = true) (s : Sign) :
    u.compare (.infinity s) = some (compare p (signed s infinityBits)) := by
  have near : p.natAbs < infinityBits := parts.isFinite_iff.mp finite
  cases u with
  | notANumber => cases finite
  | infinity r => cases finite
  | _ =>
    cases s
    · exact some_gt_eq_compare (by simp only [signed]; omega)
    · exact some_lt_eq_compare (by simp only [signed]; omega)

theorem Unpacks.compare (parts : Unpacks p u) (parts' : Unpacks q v)
    (number : p.natAbs ≤ infinityBits) (number' : q.natAbs ≤ infinityBits) :
    u.compare v = some (compare p q) := by
  have positive : 0 < infinityBits := by decide
  have finite' := parts'.isFinite_iff
  cases u with
  | notANumber => exact absurd parts (Nat.not_lt.mpr number)
  | infinity s =>
    obtain rfl := parts
    cases v with
    | notANumber => exact absurd parts' (Nat.not_lt.mpr number')
    | infinity r =>
      obtain rfl := parts'
      cases s <;> cases r <;> decide
    | _ =>
      have near : q.natAbs < infinityBits := finite'.mp rfl
      cases s
      · exact some_lt_eq_compare (by simp only [signed]; omega)
      · exact some_gt_eq_compare (by simp only [signed]; omega)
  | zero s =>
    cases v with
    | notANumber => exact absurd parts' (Nat.not_lt.mpr number')
    | infinity r =>
      obtain rfl := parts'
      exact parts.compare_infinity rfl r
    | zero r =>
      obtain rfl := parts
      obtain rfl := parts'
      rfl
    | finite r m e nonzero =>
      obtain rfl := parts
      obtain ⟨_, _, _, _, rfl⟩ := parts'
      cases r
      · exact some_gt_eq_compare (by simp only [signed]; omega)
      · exact some_lt_eq_compare (by simp only [signed]; omega)
  | finite s m e nonzero =>
    cases v with
    | notANumber => exact absurd parts' (Nat.not_lt.mpr number')
    | infinity r =>
      obtain rfl := parts'
      exact parts.compare_infinity rfl r
    | zero r =>
      obtain ⟨_, _, _, _, rfl⟩ := parts
      obtain rfl := parts'
      cases s
      · exact some_lt_eq_compare (by simp only [signed]; omega)
      · exact some_gt_eq_compare (by simp only [signed]; omega)
    | finite r k f nonzero' => exact parts.compare_finite parts'

theorem compare_unpack (number : x ≠ .nan) (number' : y ≠ .nan) :
    x.toModel.unpack.compare y.toModel.unpack = some (compare (position x) (position y)) :=
  (unpacks x).compare (unpacks y) (ne_nan_iff.mp number) (ne_nan_iff.mp number')

theorem lt_iff (number : x ≠ .nan) (number' : y ≠ .nan) : x < y ↔ position x < position y := by
  show decide _ = true ↔ _
  rw [decide_eq_true_iff]
  show (UnpackedFloat.compare _ _ == some .lt) = true ↔ _
  rw [compare_unpack number number']
  simp [compare_lt_iff_lt]

theorem le_iff (number : x ≠ .nan) (number' : y ≠ .nan) : x ≤ y ↔ position x ≤ position y := by
  show decide _ = true ↔ _
  rw [decide_eq_true_iff]
  show (UnpackedFloat.compare _ _).any Ordering.isLE = true ↔ _
  rw [compare_unpack number number', Option.any_some, Int.isLE_compare]

theorem beq_iff (number : x ≠ .nan) (number' : y ≠ .nan) :
    (x == y) = true ↔ position x = position y := by
  show (UnpackedFloat.compare _ _ == some .eq) = true ↔ _
  rw [compare_unpack number number']
  simp

/-- All numbers but not-a-number are ordered by their positions. -/
theorem compare?_eq (number : x ≠ .nan) (number' : y ≠ .nan) :
    compare? x y = some (compare (position x) (position y)) := by
  unfold compare?
  simp only [lt_iff number number', lt_iff number' number, beq_iff number number']
  rcases lt_trichotomy (position x) (position y) with below | same | above
  · rw [if_pos below, compare_lt_iff_lt.mpr below]
  · simp [same]
  · rw [if_neg above.not_gt, if_neg above.ne', if_pos above, compare_gt_iff_gt.mpr above]

/-! ### Rounding -/

theorem natAbs_position (x : Float) : (position x).natAbs = x.toBits.toNat % signWeight := by
  rw [position_eq_signed, natAbs_signed]

theorem toNat_ofBits {n : Nat} (bound : n < 2 * signWeight) (number : n % signWeight ≤ infinityBits) :
    (Float.ofBits n.toUInt64).toBits.toNat = n := by
  have word : n.toUInt64.toNat = n := UInt64.toNat_ofNat_of_lt bound
  have ordinary : ¬ @UnpackedFloat.isNaNBits Format.binary64 n.toUInt64.toBitVec = true := by
    unfold UnpackedFloat.isNaNBits
    rw [decide_eq_true_iff, ← BitVec.toNat_inj, Ne, ← BitVec.toNat_inj, toNat_unpackExponent,
      toNat_unpackMantissa, UInt64.toNat_toBitVec, word]
    rintro ⟨top, payload⟩
    change n / hiddenBit % 2048 = 2047 at top
    change ¬ n % hiddenBit = 0 at payload
    rw [magnitude_eq, top, infinityBits] at number
    omega
  show (UnpackedFloat.pack Format.binary64 (unpack Format.binary64 n.toUInt64.toBitVec)).toNat = n
  rw [UnpackedFloat.pack_unpack, if_neg ordinary, UInt64.toNat_toBitVec, word]

theorem natAbs_position_ofBits (negative : Bool) {n : Nat} (number : n ≤ infinityBits) :
    (position (Float.ofBits (signBit negative + n).toUInt64)).natAbs = n := by
  have sign : signBit negative = 0 ∨ signBit negative = signWeight := by
    cases negative
    · exact .inl rfl
    · exact .inr rfl
  have small : n < signWeight := number.trans_lt (by decide)
  have magnitude : (signBit negative + n) % signWeight = n := by
    rcases sign with sign | sign <;> simp [sign, Nat.mod_eq_of_lt small]
  have bound : signBit negative + n < 2 * signWeight := by omega
  rw [natAbs_position, toNat_ofBits bound (magnitude.le.trans number), magnitude]

theorem roundHalfEven_le {num den bound : Nat} (below : num < bound * den) :
    roundHalfEven num den ≤ bound := by
  have quotient : num / den < bound := Nat.div_lt_of_lt_mul (Nat.mul_comm _ _ ▸ below)
  unfold roundHalfEven
  dsimp only
  split <;> omega

variable {negative : Bool} {num den : Nat}

/-- Rounding gives a number, if need be an infinite one. -/
theorem nearest_ne_nan : nearest negative num den ≠ .nan := by
  rw [ne_nan_iff]
  unfold nearest
  dsimp only
  split
  · exact (natAbs_position_ofBits negative (Nat.zero_le _)).le.trans (Nat.zero_le _)
  · rw [natAbs_position_ofBits negative (Nat.min_le_right _ _)]
    exact Nat.min_le_right _ _

/-- The mantissa of a rounded fraction has at most 53 bits, or it is the next power of two. -/
theorem mantissa_le (some : 0 < num) (positive : 0 < den) {q : Int} (low : floorLog2 num den - 52 ≤ q) :
    roundHalfEven (num * twoTo (-q).toNat) (den * twoTo q.toNat) ≤ 2 * hiddenBit := by
  have spec := (floorLog2_spec some positive).2
  have bits : ((2 * hiddenBit : Nat) : ℚ) = 2 ^ (53 : Int) := by norm_num [hiddenBit]
  apply roundHalfEven_le
  rw [← Nat.mul_assoc, ← Nat.not_le, scaled_le_iff, not_le]
  calc (num : ℚ)
      < 2 ^ (floorLog2 num den + 1) * den := spec
    _ ≤ 2 ^ (q + 53) * den :=
        mul_le_mul_of_nonneg_right (zpow_le_zpow_right₀ one_le_two (by omega)) den.cast_nonneg
    _ = 2 ^ q * (2 * hiddenBit * den : Nat) := by
        rw [Nat.cast_mul, bits, zpow_add₀ two_ne_zero, mul_assoc]

theorem isFinite_nearest (positive : 0 < den) (small : num = 0 ∨ floorLog2 num den ≤ 1022) :
    (nearest negative num den).isFinite = true := by
  rw [isFinite_iff]
  unfold nearest
  dsimp only
  split
  · refine (natAbs_position_ofBits negative (Nat.zero_le _)).trans_lt ?_
    decide
  · rename_i nonzero
    have mantissa := mantissa_le (Nat.pos_of_ne_zero nonzero) positive
      (le_max_left (floorLog2 num den - 52) (-1074))
    rw [natAbs_position_ofBits negative (Nat.min_le_right _ _), infinityBits]
    simp only [hiddenBit] at *
    omega

theorem isFinite_whole (small : num < 2 ^ 64) : (nearest negative num 1).isFinite = true := by
  refine isFinite_nearest Nat.one_pos ?_
  rcases Nat.eq_zero_or_pos num with zero | some
  · exact .inl zero
  · have leading : floorLog2 num 1 < (64 : Nat) + 0 := floorLog2_lt some Nat.one_pos rfl small
    exact .inr (by omega)

end Tableflow.Number
