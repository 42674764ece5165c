import Tableflow.Proofs.Decimals
import Tableflow.Proofs.Patterns

/-!
The text of a finite number is read back as the same number, the sign of a zero included.
-/

namespace Tableflow.Number

variable {x : Float} {d : Dyadic} {cs whole fraction : List Char} {negative : Bool}

/-! ### Literals -/

theorem readDigits_zeros_after (n count : Nat) :
    readDigits n (List.replicate count '0') = n * tenTo count := by
  induction count generalizing n with
  | zero => exact (Nat.mul_one n).symm
  | succ count ih =>
    rw [List.replicate_succ]
    show readDigits (10 * n + 0) (List.replicate count '0') = _
    rw [ih, show tenTo (count + 1) = tenTo count * 10 from rfl]
    ring

theorem splitSign_signChars (digits : ∀ c ∈ whole, c.isDigit = true) (nonempty : whole ≠ [])
    (negative : Bool) (rest : List Char) :
    splitSign (signChars negative ++ (whole ++ rest)) = (negative, whole ++ rest) := by
  obtain ⟨c, others, rfl⟩ := List.exists_cons_of_ne_nil nonempty
  have digit := digits c List.mem_cons_self
  cases negative with
  | true => rfl
  | false =>
    show splitSign (c :: (others ++ rest)) = (false, c :: (others ++ rest))
    unfold splitSign
    split
    · rename_i clash
      obtain ⟨rfl, -⟩ := List.cons.inj clash
      cases digit
    · rename_i clash
      obtain ⟨rfl, -⟩ := List.cons.inj clash
      cases digit
    · rfl

theorem splitDigits?_point (digits : ∀ c ∈ whole, c.isDigit = true) (nonempty : whole ≠ [])
    (places : ∀ c ∈ fraction, c.isDigit = true) :
    splitDigits? (whole ++ '.' :: fraction) = some (whole, fraction, []) := by
  rw [splitDigits?, spanDigits_append digits rfl]
  simp [spanDigits_eq_self places, nonempty]

theorem read?_whole (digits : ∀ c ∈ whole, c.isDigit = true) (nonempty : whole ≠ []) :
    Literal.read? (signChars negative ++ whole) = some ⟨negative, readDigits 0 whole, 0⟩ := by
  have sign := splitSign_signChars digits nonempty negative []
  have split := @splitDigits?_whole whole [] digits nonempty rfl nofun
  rw [List.append_nil] at sign split
  rw [read?_of_split sign split, List.append_nil]
  rfl

theorem read?_point (digits : ∀ c ∈ whole, c.isDigit = true) (nonempty : whole ≠ [])
    (places : ∀ c ∈ fraction, c.isDigit = true) :
    Literal.read? (signChars negative ++ (whole ++ '.' :: fraction)) =
      some ⟨negative, readDigits 0 (whole ++ fraction), -fraction.length⟩ := by
  rw [read?_of_split (splitSign_signChars digits nonempty negative _)
    (splitDigits?_point digits nonempty places)]
  simp [readExponent?]

theorem isDigit_digitChars {n : Nat} : ∀ c ∈ digitChars n, c.isDigit = true := fun _ here =>
  Nat.isDigit_of_mem_toDigits (by decide) (by decide) here

theorem isDigit_zeros {count : Nat} : ∀ c ∈ List.replicate count '0', c.isDigit = true := fun _ here =>
  List.eq_of_mem_replicate here ▸ rfl

theorem readDigits_digitChars (n : Nat) : readDigits 0 (digitChars n) = n := readDigits_toDigits n

theorem positional_whole (number zeros : Nat) :
    positional ⟨number, .ofNat zeros⟩ ≠ [] ∧ (∀ c ∈ positional ⟨number, .ofNat zeros⟩, c.isDigit = true) ∧
      readDigits 0 (positional ⟨number, .ofNat zeros⟩) = number * tenTo zeros := by
  have shape : positional ⟨number, .ofNat zeros⟩ = digitChars number ++ List.replicate zeros '0' := rfl
  rw [shape]
  refine ⟨?_, List.forall_mem_append.mpr ⟨isDigit_digitChars, isDigit_zeros⟩, ?_⟩
  · simp [digitChars, Nat.toDigits_ne_nil]
  · rw [readDigits_append, readDigits_digitChars, readDigits_zeros_after]

/-- A fraction stands behind a point, with a digit before it and zeros at the front where needed. -/
theorem positional_point (number k : Nat) :
    ∃ whole fraction, positional ⟨number, .negSucc k⟩ = whole ++ '.' :: fraction ∧ whole ≠ [] ∧
      (∀ c ∈ whole ++ fraction, c.isDigit = true) ∧ fraction.length = k + 1 ∧
      readDigits 0 (whole ++ fraction) = number := by
  simp only [positional]
  split
  · rename_i fits
    refine ⟨_, _, rfl, ?_, ?_, ?_, ?_⟩
    · rw [ne_eq, List.take_eq_nil_iff, ← List.length_eq_zero_iff]
      omega
    · rw [List.take_append_drop]
      exact isDigit_digitChars
    · rw [List.length_drop]
      omega
    · rw [List.take_append_drop, readDigits_digitChars]
  · rename_i short
    refine ⟨['0'], List.replicate (k + 1 - (digitChars number).length) '0' ++ digitChars number, rfl,
      List.cons_ne_nil _ _, ?_, ?_, ?_⟩
    · exact List.forall_mem_append.mpr
        ⟨@isDigit_zeros 1, List.forall_mem_append.mpr ⟨isDigit_zeros, isDigit_digitChars⟩⟩
    · rw [List.length_append, List.length_replicate]
      omega
    · rw [readDigits_append, readDigits_append, show readDigits 0 ['0'] = 0 from rfl, readDigits_zeros,
        readDigits_digitChars]

/-- A positional numeral is a literal of the same value. -/
theorem read?_positional (negative : Bool) (n : Numeral) :
    ∃ digits exponent, Literal.read? (signChars negative ++ positional n) =
        some ⟨negative, digits, exponent⟩ ∧
      (digits * 10 ^ exponent : ℚ) = n.value := by
  obtain ⟨number, exponent⟩ := n
  cases exponent with
  | ofNat zeros =>
    obtain ⟨nonempty, digits, value⟩ := positional_whole number zeros
    refine ⟨number * tenTo zeros, 0, ?_, by simp [Numeral.value, tenTo]⟩
    rw [read?_whole digits nonempty, value]
  | negSucc k =>
    obtain ⟨whole, fraction, shape, nonempty, digits, length, value⟩ := positional_point number k
    obtain ⟨digits, places⟩ := List.forall_mem_append.mp digits
    refine ⟨number, .negSucc k, ?_, rfl⟩
    rw [shape, read?_point digits nonempty places, value, length]
    rfl

/-! ### Numbers from literals -/

theorem ten_zpow_length {digits : Nat} (nonzero : 0 < digits) (exponent : Int) :
    (10 : ℚ) ^ ((digitChars digits).length + exponent - 1) ≤ digits * 10 ^ exponent ∧
      (digits * 10 ^ exponent : ℚ) < 10 ^ ((digitChars digits).length + exponent) := by
  have unit : (0 : ℚ) < 10 ^ exponent := by positivity
  have some : 0 < (digitChars digits).length := List.length_pos_of_ne_nil Nat.toDigits_ne_nil
  have below : digits < 10 ^ (digitChars digits).length :=
    (Nat.length_toDigits_le_iff (by decide) some).mp le_rfl
  have above : 10 ^ ((digitChars digits).length - 1) ≤ digits := by
    by_contra small
    rcases Nat.eq_zero_or_pos ((digitChars digits).length - 1) with one | more
    · rw [one] at small
      omega
    · have shorter := (Nat.length_toDigits_le_iff (by decide) more).mpr (Nat.not_le.mp small)
      rw [digitChars] at shorter some
      omega
  constructor
  · rw [show (digitChars digits).length + exponent - 1 =
      (((digitChars digits).length - 1 : Nat) : Int) + exponent by omega, zpow_add₀ (by norm_num), zpow_natCast]
    refine mul_le_mul_of_nonneg_right ?_ unit.le
    exact_mod_cast above
  · rw [zpow_add₀ (by norm_num), zpow_natCast]
    refine mul_lt_mul_of_pos_right ?_ unit
    exact_mod_cast below

/-- The limits on the place of the first digit leave out nothing that rounds to a number. -/
theorem top_of_rounds {m digits : Nat} {q exponent : Int} (nonzero : 0 < m) (small : m < 2 * hiddenBit)
    (least : -1074 ≤ q) (most : q ≤ 971) (positive : 0 < digits)
    (rounds : Rounds m q (digits * 10 ^ exponent)) :
    -330 ≤ (digitChars digits).length + exponent ∧ (digitChars digits).length + exponent ≤ 310 := by
  obtain ⟨low, high⟩ := rounds.bounds
  obtain ⟨leading, next⟩ := ten_zpow_length positive exponent
  have gap := gapBelow_le m q
  have unit : (0 : ℚ) < 2 ^ q := by positivity
  have nonzero : (1 : ℚ) ≤ m := by exact_mod_cast nonzero
  have small : (m : ℚ) + 1 ≤ 2 ^ 53 := by exact_mod_cast small
  constructor
  · by_contra tiny
    have power := @ten_zpow_le_two_zpow ((digitChars digits).length + exponent) (-1076) (by omega) (by omega)
    have smallest : (2 : ℚ) ^ (-1076 : Int) ≤ 2⁻¹ * 2 ^ q := by
      rw [← zpow_neg_one, ← zpow_add₀ two_ne_zero]
      exact zpow_le_zpow_right₀ one_le_two (by omega)
    nlinarith
  · by_contra huge
    have power := @ten_zpow_le_two_zpow (-((digitChars digits).length + exponent - 1)) (-1025)
      (by omega) (by omega)
    rw [zpow_neg, zpow_neg, inv_le_inv₀ (by positivity) (by positivity)] at power
    have largest : (2 : ℚ) ^ 53 * 2 ^ q ≤ 2 ^ (1025 : Int) := by
      rw [← zpow_natCast, ← zpow_add₀ two_ne_zero]
      exact zpow_le_zpow_right₀ one_le_two (by omega)
    refine lt_irrefl ((10 : ℚ) ^ ((digitChars digits).length + exponent - 1)) ?_
    calc (10 : ℚ) ^ ((digitChars digits).length + exponent - 1)
      _ ≤ (m + 1 / 2) * 2 ^ q := leading.trans high
      _ < (m + 1) * 2 ^ q := mul_lt_mul_of_pos_right (by norm_num) unit
      _ ≤ 2 ^ 53 * 2 ^ q := mul_le_mul_of_nonneg_right small unit.le
      _ ≤ _ := largest.trans power

theorem nearestDecimal_of_rounds {digits : Nat} {exponent : Int} (decoded : decode? x = some d)
    (nonzero : 0 < d.mantissa) (rounds : Rounds d.mantissa d.exponent (digits * 10 ^ exponent)) :
    nearestDecimal d.negative digits exponent = x := by
  obtain ⟨small, least, most, -⟩ := decode_range decoded
  have positive : 0 < digits := by
    refine Nat.pos_of_ne_zero fun zero => ?_
    have positive := rounds.pos nonzero
    rw [zero, Nat.cast_zero, zero_mul] at positive
    exact lt_irrefl _ positive
  obtain ⟨notTiny, notHuge⟩ := top_of_rounds nonzero small least most positive rounds
  simp only [nearestDecimal]
  rw [if_neg (by omega), if_neg (by omega)]
  refine nearest_of_rounds decoded nonzero (tenTo_pos _) ?_
  rwa [Nat.cast_mul, mul_div_assoc, ← ten_zpow_eq]

/-! ### Texts -/

theorem isBlank_of_mem_positional {n : Numeral} {c : Char} (here : c ∈ positional n) :
    Text.isBlank c = false := by
  obtain ⟨number, exponent⟩ := n
  cases exponent with
  | ofNat zeros =>
    exact Text.isBlank_of_isDigit ((positional_whole number zeros).2.1 c here)
  | negSucc k =>
    obtain ⟨whole, fraction, shape, -, digits, -, -⟩ := positional_point number k
    rw [shape, List.mem_append, List.mem_cons] at here
    rcases here with before | rfl | behind
    · exact Text.isBlank_of_isDigit (digits c (List.mem_append_left _ before))
    · rfl
    · exact Text.isBlank_of_isDigit (digits c (List.mem_append_right _ behind))

theorem shown_toChars (decoded : decode? x = some d) {c : Char} (here : c ∈ toChars x) :
    Text.isBlank c = false := by
  simp only [toChars, decoded] at here
  rcases List.mem_append.mp here with sign | digits
  · unfold signChars at sign
    split at sign
    · obtain rfl := List.mem_singleton.mp sign
      rfl
    · cases sign
  · split at digits
    · obtain rfl := List.mem_singleton.mp digits
      rfl
    · exact isBlank_of_mem_positional digits

/-- The text of a finite number is read as a literal that is nearest to the number. -/
theorem read?_toChars (decoded : decode? x = some d) :
    ∃ literal, Literal.read? (toChars x) = some literal ∧ literal.toFloat = x := by
  obtain ⟨small, least, most, -⟩ := decode_range decoded
  simp only [toChars, decoded]
  split
  · rename_i zero
    refine ⟨⟨d.negative, 0, 0⟩, read?_whole (@isDigit_zeros 1) (List.cons_ne_nil _ _), ?_⟩
    rw [Literal.toFloat, nearestDecimal, if_pos (.inl rfl)]
    exact nearest_of_decode decoded Nat.one_pos (by rw [zero, Nat.zero_mul, Nat.zero_mul])
  · rename_i nonzero
    have nonzero := Nat.pos_of_ne_zero nonzero
    have rounds := rounds_shortest nonzero small least most .up
    obtain ⟨digits, exponent, read, value⟩ :=
      read?_positional d.negative (shortest .up d.mantissa d.exponent)
    rw [← value] at rounds
    exact ⟨_, read, nearestDecimal_of_rounds decoded nonzero rounds⟩

/-- A finite number is written and read back. -/
theorem ofText_toText (finite : x.isFinite = true) : ofText (toText x) = some (.number x) := by
  obtain ⟨d, decoded⟩ := exists_decode finite
  obtain ⟨literal, read, same⟩ := read?_toChars decoded
  have trimmed : Text.trimChars (toText x).toList = toChars x := by
    rw [toText, String.toList_ofList]
    exact Text.trimChars_eq_self fun _ => shown_toChars decoded
  rw [← trimmed] at read
  rw [ofText_of_read read, same, Cell.finite, if_pos finite]

end Tableflow.Number
