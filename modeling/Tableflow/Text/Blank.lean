/-!
Blank characters, as the White_Space property lists them, and the removal of blanks at both ends
of a text.
-/

namespace Tableflow.Text

def isBlank (c : Char) : Bool :=
  let n := c.toNat
  (0x09 ≤ n && n ≤ 0x0D) || n == 0x20 || n == 0x85 || n == 0xA0 || n == 0x1680 ||
    (0x2000 ≤ n && n ≤ 0x200A) || n == 0x2028 || n == 0x2029 || n == 0x202F || n == 0x205F ||
    n == 0x3000

def dropBlanks (cs : List Char) : List Char := cs.dropWhile isBlank

def trimChars (cs : List Char) : List Char :=
  (dropBlanks (dropBlanks cs).reverse).reverse

/-- The text without the blanks at its two ends. -/
def trim (s : String) : String := String.ofList (trimChars s.toList)

theorem isBlank_of_isDigit {c : Char} (digit : c.isDigit = true) : isBlank c = false := by
  simp only [Char.isDigit, Bool.and_eq_true, decide_eq_true_eq] at digit
  obtain ⟨low, high⟩ := digit
  have low : 48 ≤ c.toNat := low
  have high : c.toNat ≤ 57 := high
  simp only [isBlank, Bool.or_eq_false_iff, Bool.and_eq_false_iff, decide_eq_false_iff_not,
    beq_eq_false_iff_ne]
  omega

/-! ### Texts without blanks at their ends -/

theorem dropBlanks_eq_self {cs : List Char} (flush : ∀ c, cs.head? = some c → isBlank c = false) :
    dropBlanks cs = cs := by
  cases cs with
  | nil => rfl
  | cons c rest => simp [dropBlanks, flush c rfl]

theorem isBlank_head_dropBlanks {cs : List Char} {c : Char} (first : (dropBlanks cs).head? = some c) :
    isBlank c = false := by
  have shown := List.head?_dropWhile_not isBlank cs
  rw [dropBlanks] at first
  rwa [first] at shown

theorem trimChars_eq_self {cs : List Char} (shown : ∀ c ∈ cs, isBlank c = false) :
    trimChars cs = cs := by
  have front : dropBlanks cs = cs :=
    dropBlanks_eq_self fun c first => shown c (List.mem_of_head? first)
  have back : dropBlanks cs.reverse = cs.reverse :=
    dropBlanks_eq_self fun c first => shown c (List.mem_reverse.mp (List.mem_of_head? first))
  rw [trimChars, front, back, List.reverse_reverse]

theorem trimChars_trimChars (cs : List Char) : trimChars (trimChars cs) = trimChars cs := by
  have shorter : trimChars cs <+: dropBlanks cs := by
    have ending : dropBlanks (dropBlanks cs).reverse <:+ (dropBlanks cs).reverse :=
      List.dropWhile_suffix _
    simpa [trimChars] using List.reverse_prefix.mpr ending
  have front : dropBlanks (trimChars cs) = trimChars cs := by
    refine dropBlanks_eq_self fun c first => @isBlank_head_dropBlanks cs c ?_
    obtain ⟨rest, whole⟩ := shorter
    rw [← whole, List.head?_append, first, Option.some_or]
  have back : dropBlanks (trimChars cs).reverse = (trimChars cs).reverse := by
    rw [trimChars, List.reverse_reverse]
    exact dropBlanks_eq_self fun c first => isBlank_head_dropBlanks first
  rw [trimChars, front, back, List.reverse_reverse]

@[simp] theorem trim_trim (s : String) : trim (trim s) = trim s := by
  simp [trim, trimChars_trimChars]

end Tableflow.Text
