import Mathlib.Data.List.Basic
import Mathlib.Data.List.Induction
import Mathlib.Data.List.TakeWhile
import Mathlib.Data.Nat.Digits.Defs
import Mathlib.Tactic.Ring
import Tableflow.Cell.Convert
import Tableflow.Proofs.DatetimeText

/-!
The spelling of decimal literals, part by part, and its equivalence with the reader.
-/

namespace Tableflow

/-! ### Blanks around a text -/

namespace Text

variable {cs before core after : List Char}

theorem dropBlanks_append (blank : ∀ c ∈ before, isBlank c = true) (rest : List Char) :
    dropBlanks (before ++ rest) = dropBlanks rest :=
  List.dropWhile_append_of_pos blank

theorem exists_dropBlanks (cs : List Char) :
    ∃ before, (∀ c ∈ before, isBlank c = true) ∧ cs = before ++ dropBlanks cs :=
  ⟨cs.takeWhile isBlank, fun _ here => List.mem_takeWhile_imp here, List.takeWhile_append_dropWhile.symm⟩

/-- Removing blanks at both ends leaves a part of the text, with nothing but blanks around it. -/
theorem exists_trimChars (cs : List Char) : ∃ before after,
    (∀ c ∈ before ++ after, isBlank c = true) ∧ cs = before ++ trimChars cs ++ after := by
  obtain ⟨before, blank, front⟩ := exists_dropBlanks cs
  obtain ⟨behind, blank', back⟩ := exists_dropBlanks (dropBlanks cs).reverse
  refine ⟨before, behind.reverse, List.forall_mem_append.mpr ⟨blank, ?_⟩, ?_⟩
  · exact fun c here => blank' c (List.mem_reverse.mp here)
  · have back := congrArg List.reverse back
    rw [List.reverse_reverse, List.reverse_append] at back
    rw [List.append_assoc, trimChars, ← back, ← front]

theorem trimChars_around (blank : ∀ c ∈ before ++ after, isBlank c = true)
    (shown : ∀ c ∈ core, isBlank c = false) (some : core ≠ []) :
    trimChars (before ++ core ++ after) = core := by
  obtain ⟨blank, blank'⟩ := List.forall_mem_append.mp blank
  have front : dropBlanks (core ++ after) = core ++ after := by
    refine dropBlanks_eq_self fun c first => shown c ?_
    rw [List.head?_append_of_ne_nil _ some] at first
    exact List.mem_of_head? first
  have back : dropBlanks core.reverse = core.reverse :=
    dropBlanks_eq_self fun c first => shown c (List.mem_reverse.mp (List.mem_of_head? first))
  rw [trimChars, List.append_assoc, dropBlanks_append blank, front, List.reverse_append,
    dropBlanks_append fun c here => blank' c (List.mem_reverse.mp here), back, List.reverse_reverse]

end Text

namespace Number

/-! ### Literals -/

/-- One digit or more. -/
def IsDigits (cs : List Char) : Prop := cs ≠ [] ∧ ∀ c ∈ cs, c.isDigit = true

/-- The number that a row of digits stands for. -/
def digitsValue (cs : List Char) : Nat := Nat.ofDigits 10 (cs.reverse.map digitValue)

/-- An optional sign. -/
inductive SpellsSign : List Char → Bool → Prop where
  | absent : SpellsSign [] false
  | plus : SpellsSign ['+'] false
  | minus : SpellsSign ['-'] true

/-- Digits with an optional point and further digits, or a point and digits. -/
inductive SpellsDigits : List Char → List Char → List Char → Prop where
  | whole {whole : List Char} : IsDigits whole → SpellsDigits whole whole []
  | point {whole fraction : List Char} : IsDigits whole → (∀ c ∈ fraction, c.isDigit = true) →
      SpellsDigits (whole ++ '.' :: fraction) whole fraction
  | fraction {fraction : List Char} : IsDigits fraction → SpellsDigits ('.' :: fraction) [] fraction

/-- An optional power of ten. -/
inductive SpellsExponent : List Char → Int → Prop where
  | absent : SpellsExponent [] 0
  | power {mark : Char} {sign digits : List Char} {negative : Bool} : mark = 'e' ∨ mark = 'E' →
      SpellsSign sign negative → IsDigits digits →
      SpellsExponent (mark :: (sign ++ digits)) (withSign negative (digitsValue digits))

/-- A digit, a sign, a point or the mark of a power. -/
def IsLiteralChar (c : Char) : Prop := c.isDigit = true ∨ c ∈ ['+', '-', '.', 'e', 'E']

variable {cs sign body tail whole fraction rest digits : List Char} {negative : Bool} {e : Int}

/-! ### Values of digits -/

theorem readDigits_eq (start : Nat) (cs : List Char) :
    readDigits start cs = start * 10 ^ cs.length + digitsValue cs := by
  induction cs using List.reverseRecOn generalizing start with
  | nil => simp [readDigits, digitsValue]
  | append_singleton cs c ih =>
    rw [readDigits_append, ih]
    simp only [readDigits, digitsValue, List.foldl_cons, List.foldl_nil, List.reverse_append,
      List.reverse_singleton, List.singleton_append, List.map_cons, Nat.ofDigits_cons,
      List.length_append, List.length_singleton]
    ring

theorem readDigits_zero (cs : List Char) : readDigits 0 cs = digitsValue cs := by
  rw [readDigits_eq, Nat.zero_mul, Nat.zero_add]

/-! ### Reading -/

theorem read?_of_split (sign : splitSign cs = (negative, body))
    (split : splitDigits? body = some (whole, fraction, tail)) :
    Literal.read? cs = (readExponent? tail).map fun exponent =>
      ⟨negative, readDigits 0 (whole ++ fraction), exponent - fraction.length⟩ := by
  simp only [Literal.read?, sign, split]
  cases readExponent? tail <;> rfl

/-- Without a point, the digits end where something else than a digit stands. -/
theorem splitDigits?_whole (digits : ∀ c ∈ whole, c.isDigit = true) (nonempty : whole ≠ [])
    (ends : rest.takeWhile Char.isDigit = []) (pointless : rest.head? ≠ some '.') :
    splitDigits? (whole ++ rest) = some (whole, [], rest) := by
  rw [splitDigits?, spanDigits_append digits ends]
  split
  · rename_i point
    obtain ⟨rfl, rfl⟩ := Prod.mk.inj point
    exact absurd rfl pointless
  · rename_i pair
    obtain ⟨rfl, rfl⟩ := Prod.mk.inj pair
    simp [nonempty]

theorem splitSign_append (spelled : SpellsSign sign negative) (plus : rest.head? ≠ some '+')
    (minus : rest.head? ≠ some '-') : splitSign (sign ++ rest) = (negative, rest) := by
  cases spelled with
  | absent =>
    rw [List.nil_append]
    unfold splitSign
    split
    · exact absurd rfl minus
    · exact absurd rfl plus
    · rfl
  | plus => rfl
  | minus => rfl

theorem exists_splitSign (split : splitSign cs = (negative, rest)) :
    ∃ sign, SpellsSign sign negative ∧ cs = sign ++ rest := by
  unfold splitSign at split
  split at split <;> obtain ⟨rfl, rfl⟩ := Prod.mk.inj split
  · exact ⟨_, .minus, rfl⟩
  · exact ⟨_, .plus, rfl⟩
  · exact ⟨_, .absent, rfl⟩

/-- Digits do not begin with a sign, and neither does a point. -/
theorem IsDigits.unsigned (isDigits : IsDigits digits) (rest : List Char) :
    (digits ++ rest).head? ≠ some '+' ∧ (digits ++ rest).head? ≠ some '-' := by
  obtain ⟨c, others, rfl⟩ := List.exists_cons_of_ne_nil isDigits.1
  have digit := isDigits.2 c List.mem_cons_self
  constructor <;> rintro ⟨⟩ <;> cases digit

theorem SpellsDigits.unsigned (spelled : SpellsDigits body whole fraction) (rest : List Char) :
    (body ++ rest).head? ≠ some '+' ∧ (body ++ rest).head? ≠ some '-' := by
  cases spelled with
  | whole isDigits => exact isDigits.unsigned rest
  | point isDigits _ =>
    rw [List.append_assoc]
    exact isDigits.unsigned _
  | fraction _ => exact ⟨by simp, by simp⟩

theorem SpellsExponent.ends (spelled : SpellsExponent tail e) :
    tail.takeWhile Char.isDigit = [] ∧ tail.head? ≠ some '.' := by
  cases spelled with
  | absent => exact ⟨rfl, nofun⟩
  | power mark _ _ => rcases mark with rfl | rfl <;> exact ⟨rfl, by simp⟩

theorem splitDigits?_append (spelled : SpellsDigits body whole fraction)
    (ends : rest.takeWhile Char.isDigit = []) (pointless : rest.head? ≠ some '.') :
    splitDigits? (body ++ rest) = some (whole, fraction, rest) := by
  cases spelled with
  | whole isDigits => exact splitDigits?_whole isDigits.2 isDigits.1 ends pointless
  | point isDigits places =>
    rw [List.append_assoc, splitDigits?, spanDigits_append isDigits.2 rfl, List.cons_append]
    simp [spanDigits_append places ends, isDigits.1]
  | fraction isDigits =>
    have front : spanDigits ('.' :: (fraction ++ rest)) = ([], '.' :: (fraction ++ rest)) := rfl
    rw [splitDigits?, List.cons_append, front]
    simp [spanDigits_append isDigits.2 ends, isDigits.1]

theorem spanDigits_eq (span : spanDigits cs = (digits, rest)) :
    (∀ c ∈ digits, c.isDigit = true) ∧ cs = digits ++ rest := by
  obtain ⟨rfl, rfl⟩ := Prod.mk.inj span
  exact ⟨fun _ here => List.mem_takeWhile_imp here, List.takeWhile_append_dropWhile.symm⟩

theorem exists_splitDigits? (split : splitDigits? cs = some (whole, fraction, rest)) :
    ∃ body, SpellsDigits body whole fraction ∧ cs = body ++ rest := by
  unfold splitDigits? at split
  split at split
  · rename_i front behind span
    obtain ⟨digits, rfl⟩ := spanDigits_eq span
    cases places : spanDigits behind with
    | mk after others =>
      obtain ⟨digits', rfl⟩ := spanDigits_eq places
      rw [places] at split
      dsimp only at split
      split at split
      · cases split
      · rename_i some
        cases split
        cases whole with
        | nil =>
          rw [List.isEmpty_nil, Bool.true_and, List.isEmpty_iff] at some
          exact ⟨_, .fraction ⟨some, digits'⟩, by simp⟩
        | cons c others => exact ⟨_, .point ⟨List.cons_ne_nil _ _, digits⟩ digits', by simp⟩
  · rename_i front behind _ span
    obtain ⟨digits, rfl⟩ := spanDigits_eq span
    split at split
    · cases split
    · rename_i some
      cases split
      rw [List.isEmpty_iff] at some
      exact ⟨_, .whole ⟨some, digits⟩, rfl⟩

theorem readExponent?_eq_some : readExponent? cs = some e ↔ SpellsExponent cs e := by
  constructor
  · intro read
    cases cs with
    | nil =>
      obtain rfl := Option.some.inj read
      exact .absent
    | cons mark rest =>
      simp only [readExponent?] at read
      split at read
      · rename_i marked
        obtain ⟨sign, spelled, shape⟩ := @exists_splitSign rest _ _ rfl
        split at read
        · cases read
        · rename_i digits
          obtain rfl := Option.some.inj read
          rw [Bool.or_eq_true, not_or, List.isEmpty_iff, Bool.not_eq_true', Bool.not_eq_false, List.all_eq_true] at digits
          rw [readDigits_zero]
          nth_rewrite 1 [shape]
          exact .power marked spelled digits
      · cases read
  · intro spelled
    cases spelled with
    | absent => rfl
    | @power mark sign digits negative marked spelled isDigits =>
      obtain ⟨plus, minus⟩ := isDigits.unsigned []
      rw [List.append_nil] at plus minus
      have digits' : ¬ (digits.isEmpty || !digits.all Char.isDigit) = true := by
        simpa [isDigits.1] using isDigits.2
      simp only [readExponent?, if_pos marked, splitSign_append spelled plus minus, if_neg digits',
        readDigits_zero]

/-- Reading accepts the literals and gives their sign and value. -/
theorem read?_eq_some_iff {literal : Literal} : Literal.read? cs = some literal ↔
    ∃ sign body tail whole fraction exponent, cs = sign ++ (body ++ tail) ∧
      SpellsSign sign literal.negative ∧ SpellsDigits body whole fraction ∧ SpellsExponent tail exponent ∧
      literal = ⟨literal.negative, readDigits 0 (whole ++ fraction), exponent - fraction.length⟩ := by
  constructor
  · intro read
    unfold Literal.read? at read
    cases signed : splitSign cs with
    | mk negative rest =>
      rw [signed] at read
      dsimp only at read
      split at read
      · cases read
      · rename_i whole fraction tail digits
        split at read
        · cases read
        · rename_i exponent power
          obtain rfl := Option.some.inj read
          obtain ⟨sign, spelled, rfl⟩ := exists_splitSign signed
          obtain ⟨body, spelled', rfl⟩ := exists_splitDigits? digits
          exact ⟨sign, body, tail, whole, fraction, exponent, rfl, spelled, spelled',
            readExponent?_eq_some.mp power, rfl⟩
  · rintro ⟨sign, body, tail, whole, fraction, exponent, rfl, spelled, spelled', power, same⟩
    obtain ⟨plus, minus⟩ := spelled'.unsigned tail
    obtain ⟨ends, pointless⟩ := power.ends
    rw [read?_of_split (splitSign_append spelled plus minus) (splitDigits?_append spelled' ends pointless),
      readExponent?_eq_some.mpr power, same]
    rfl

/-! ### The characters of a literal -/

theorem IsLiteralChar.shown {c : Char} (literal : IsLiteralChar c) : Text.isBlank c = false := by
  rcases literal with digit | mark
  · exact Text.isBlank_of_isDigit digit
  · simp only [List.mem_cons, List.not_mem_nil, or_false] at mark
    rcases mark with rfl | rfl | rfl | rfl | rfl <;> rfl

theorem SpellsSign.chars (spelled : SpellsSign sign negative) : ∀ c ∈ sign, IsLiteralChar c := by
  cases spelled <;> simp [IsLiteralChar]

theorem SpellsDigits.chars (spelled : SpellsDigits body whole fraction) :
    body ≠ [] ∧ ∀ c ∈ body, IsLiteralChar c := by
  cases spelled with
  | whole isDigits => exact ⟨isDigits.1, fun c here => .inl (isDigits.2 c here)⟩
  | point isDigits places =>
    refine ⟨by simp, List.forall_mem_append.mpr ⟨fun c here => .inl (isDigits.2 c here), ?_⟩⟩
    exact List.forall_mem_cons.mpr ⟨.inr (by decide), fun c here => .inl (places c here)⟩
  | fraction isDigits =>
    refine ⟨List.cons_ne_nil _ _, List.forall_mem_cons.mpr ⟨.inr (by decide), ?_⟩⟩
    exact fun c here => .inl (isDigits.2 c here)

theorem SpellsExponent.chars (spelled : SpellsExponent tail e) : ∀ c ∈ tail, IsLiteralChar c := by
  cases spelled with
  | absent => exact List.forall_mem_nil _
  | power mark spelled isDigits =>
    refine List.forall_mem_cons.mpr ⟨.inr ?_, List.forall_mem_append.mpr ⟨spelled.chars, ?_⟩⟩
    · rcases mark with rfl | rfl <;> decide
    · exact fun c here => .inl (isDigits.2 c here)

end Number

end Tableflow
