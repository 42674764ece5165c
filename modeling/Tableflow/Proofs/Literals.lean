import Tableflow.Proofs.CorrectRounding

/-!
Texts that are numbers. A text is converted to a number exactly if it is a decimal literal between
blanks, with a sign, a point and a power of ten where wanted, and is not too large. The number is then
the one nearest to the literal.
-/

namespace Tableflow

namespace Number

/-- The characters are a decimal literal for `±r`. -/
def Spells (cs : List Char) (negative : Bool) (r : ℚ) : Prop :=
  ∃ sign body tail whole fraction exponent, cs = sign ++ (body ++ tail) ∧ SpellsSign sign negative ∧
    SpellsDigits body whole fraction ∧ SpellsExponent tail exponent ∧
    r = (digitsValue whole + digitsValue fraction / 10 ^ fraction.length) * 10 ^ exponent

/-- The text is a decimal literal for `±r` between blanks. -/
def Reads (s : String) (negative : Bool) (r : ℚ) : Prop :=
  ∃ before core after, s.toList = before ++ core ++ after ∧
    (∀ c ∈ before ++ after, Text.isBlank c = true) ∧ Spells core negative r

variable {cs : List Char} {negative : Bool} {r : ℚ}

/-- All digits together with the point moved behind them have the value of the literal. -/
theorem literal_value (whole fraction : List Char) (e : Int) :
    (readDigits 0 (whole ++ fraction) * 10 ^ (e - fraction.length) : ℚ) =
      (digitsValue whole + digitsValue fraction / 10 ^ fraction.length) * 10 ^ e := by
  rw [readDigits_append, readDigits_zero, readDigits_eq, zpow_sub₀ (by norm_num), zpow_natCast]
  push_cast
  field_simp

/-- The characters are a literal exactly if they are read as one of that sign and value. -/
theorem spells_iff : Spells cs negative r ↔ ∃ literal, Literal.read? cs = some literal ∧
    literal.negative = negative ∧ r = literal.digits * 10 ^ literal.exponent := by
  constructor
  · rintro ⟨sign, body, tail, whole, fraction, exponent, rfl, spelled, spelled', power, rfl⟩
    refine ⟨⟨negative, readDigits 0 (whole ++ fraction), exponent - fraction.length⟩, ?_, rfl, ?_⟩
    · exact read?_eq_some_iff.mpr ⟨sign, body, tail, whole, fraction, exponent, rfl, spelled, spelled',
        power, rfl⟩
    · exact (literal_value whole fraction exponent).symm
  · rintro ⟨literal, read, rfl, rfl⟩
    obtain ⟨sign, body, tail, whole, fraction, exponent, rfl, spelled, spelled', power, same⟩ :=
      read?_eq_some_iff.mp read
    refine ⟨sign, body, tail, whole, fraction, exponent, rfl, spelled, spelled', power, ?_⟩
    rw [same]
    exact literal_value whole fraction exponent

theorem Spells.chars (spelled : Spells cs negative r) : cs ≠ [] ∧ ∀ c ∈ cs, IsLiteralChar c := by
  obtain ⟨sign, body, tail, whole, fraction, exponent, rfl, spelled, spelled', power, -⟩ := spelled
  refine ⟨by simp [spelled'.chars.1], List.forall_mem_append.mpr ⟨spelled.chars, ?_⟩⟩
  exact List.forall_mem_append.mpr ⟨spelled'.chars.2, power.chars⟩

/-- Blanks do not belong to a literal, so it is what is left when they are removed at both ends. -/
theorem reads_iff {s : String} : Reads s negative r ↔ Spells (Text.trimChars s.toList) negative r := by
  constructor
  · rintro ⟨before, core, after, shape, blank, spelled⟩
    obtain ⟨some, chars⟩ := spelled.chars
    rwa [shape, Text.trimChars_around blank (fun c here => (chars c here).shown) some]
  · intro spelled
    obtain ⟨before, after, blank, shape⟩ := Text.exists_trimChars s.toList
    exact ⟨before, _, after, shape, blank, spelled⟩

end Number

/-! ### Numbers of texts -/

namespace Cell

open Number (Reads RoundedFrom IsLiteralChar overflow)

variable {s : String} {negative : Bool} {r : ℚ}

theorem finite_of_roundedFrom {x : Float} (rounded : RoundedFrom x negative r) :
    finite x = some (.number x) := by
  obtain ⟨d, decoded, -⟩ := rounded
  rw [finite, if_pos (Number.isFinite_of_decode decoded)]

theorem toNumber_of_reads (reads : Reads s negative r) (below : r < overflow) :
    ∃ x, toNumber (some (.text s)) = some (.number x) ∧ RoundedFrom x negative r := by
  obtain ⟨literal, read, rfl, rfl⟩ := Number.spells_iff.mp (Number.reads_iff.mp reads)
  have rounded := Number.roundedFrom_nearestDecimal literal.negative below
  refine ⟨_, ?_, rounded⟩
  rw [toNumber, Number.ofText_of_read read]
  exact finite_of_roundedFrom rounded

theorem toNumber_of_overflow (reads : Reads s negative r) (above : overflow ≤ r) :
    toNumber (some (.text s)) = none := by
  obtain ⟨literal, read, rfl, rfl⟩ := Number.spells_iff.mp (Number.reads_iff.mp reads)
  rw [toNumber, Number.ofText_of_read read, finite, Number.Literal.toFloat, Number.isFinite_nearestDecimal_overflow literal.negative above]
  rfl

theorem exists_reads (present : (toNumber (some (.text s))).isSome = true) :
    ∃ negative r, Reads s negative r := by
  cases read : Number.Literal.read? (Text.trimChars s.toList) with
  | none =>
    rw [toNumber, Number.ofText_of_unread read] at present
    cases present
  | some literal => exact ⟨_, _, Number.reads_iff.mpr (Number.spells_iff.mpr ⟨literal, read, rfl, rfl⟩)⟩

/-- A text has a number exactly if it is a decimal literal between blanks whose value is in range, and
it is then the number nearest to the value. Literals that are too large and texts with any other
character between their ends have none. -/
theorem toNumber_accepts_literals (s : String) :
    ((toNumber (some (.text s))).isSome = true ↔ ∃ negative r, Reads s negative r ∧ r < overflow) ∧
    (∀ negative r, Reads s negative r →
      (r < overflow →
        ∃ x, toNumber (some (.text s)) = some (.number x) ∧ RoundedFrom x negative r) ∧
      (overflow ≤ r → toNumber (some (.text s)) = none)) ∧
    ((∃ c ∈ Text.trimChars s.toList, ¬ IsLiteralChar c) → toNumber (some (.text s)) = none) := by
  refine ⟨⟨?_, ?_⟩, fun negative r reads => ⟨toNumber_of_reads reads, toNumber_of_overflow reads⟩, ?_⟩
  · intro present
    obtain ⟨negative, r, reads⟩ := exists_reads present
    refine ⟨negative, r, reads, lt_of_not_ge fun above => ?_⟩
    rw [toNumber_of_overflow reads above] at present
    cases present
  · rintro ⟨negative, r, reads, below⟩
    obtain ⟨x, number, -⟩ := toNumber_of_reads reads below
    rw [number]
    rfl
  · rintro ⟨c, here, foreign⟩
    rw [← Option.not_isSome_iff_eq_none]
    intro present
    obtain ⟨negative, r, reads⟩ := exists_reads present
    exact foreign ((Number.reads_iff.mp reads).chars.2 c here)

end Cell

end Tableflow
