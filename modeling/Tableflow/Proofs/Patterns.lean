import Tableflow.Proofs.Spelling

/-!
Patterns and the texts that have them. The matcher accepts just these. The pattern of numbers goes with
a reader that takes more texts than literals: each lets some through that the other does not, and both
together accept the literals between blanks.
-/

namespace Tableflow

namespace Text.Pattern

inductive Matches : Pattern → List Char → Prop where
  | nothing : Matches nothing []
  | one {isIn : Char → Bool} {c : Char} : isIn c = true → Matches (one isIn) [c]
  | seq {p q : Pattern} {cs ds : List Char} : Matches p cs → Matches q ds → Matches (seq p q) (cs ++ ds)
  | first {p q : Pattern} {cs : List Char} : Matches p cs → Matches (either p q) cs
  | second {p q : Pattern} {cs : List Char} : Matches q cs → Matches (either p q) cs
  | done {p : Pattern} : Matches (many p) []
  | more {p : Pattern} {c : Char} {cs ds : List Char} : Matches p (c :: cs) → Matches (many p) ds →
      Matches (many p) (c :: (cs ++ ds))

variable {p q : Pattern} {c : Char} {cs ds : List Char}

theorem matches_seq_iff : Matches (seq p q) cs ↔
    ∃ front back, cs = front ++ back ∧ Matches p front ∧ Matches q back := by
  constructor
  · rintro (_ | _ | ⟨inFirst, inSecond⟩)
    exact ⟨_, _, rfl, inFirst, inSecond⟩
  · rintro ⟨front, back, rfl, inFirst, inSecond⟩
    exact .seq inFirst inSecond

theorem matches_either_iff : Matches (either p q) cs ↔ Matches p cs ∨ Matches q cs := by
  constructor
  · rintro (_ | _ | _ | matched | matched)
    · exact .inl matched
    · exact .inr matched
  · rintro (matched | matched)
    · exact .first matched
    · exact .second matched

/-! ### The matcher -/

theorem isNullable_iff : p.isNullable = true ↔ Matches p [] := by
  induction p with
  | never => exact ⟨nofun, nofun⟩
  | nothing => exact ⟨fun _ => .nothing, fun _ => rfl⟩
  | one isIn => exact ⟨nofun, nofun⟩
  | seq p q first second =>
    rw [isNullable, Bool.and_eq_true, first, second, matches_seq_iff]
    constructor
    · rintro ⟨first, second⟩
      exact ⟨[], [], rfl, first, second⟩
    · rintro ⟨front, back, split, first, second⟩
      obtain ⟨rfl, rfl⟩ := List.append_eq_nil_iff.mp split.symm
      exact ⟨first, second⟩
  | either p q first second => rw [isNullable, Bool.or_eq_true, first, second, matches_either_iff]
  | many p _ => exact ⟨fun _ => .done, fun _ => rfl⟩

theorem matches_andThen : Matches (andThen p q) cs ↔ Matches (seq p q) cs := by
  unfold andThen
  split
  · rw [matches_seq_iff]
    exact ⟨nofun, fun ⟨_, _, _, impossible, _⟩ => nomatch impossible⟩
  · rw [matches_seq_iff]
    constructor
    · exact fun matched => ⟨[], cs, rfl, .nothing, matched⟩
    · rintro ⟨_, back, rfl, ⟨⟩, matched⟩
      exact matched
  · rfl

theorem matches_orElse : Matches (orElse p q) cs ↔ Matches p cs ∨ Matches q cs := by
  unfold orElse
  split
  · exact ⟨.inr, fun either => either.resolve_left nofun⟩
  · exact ⟨.inl, fun either => either.resolve_right nofun⟩
  · exact matches_either_iff

/-- The first character of a sequence belongs to the first part, unless that is empty. -/
theorem matches_seq_cons_iff : Matches (seq p q) (c :: cs) ↔
    (∃ front back, cs = front ++ back ∧ Matches p (c :: front) ∧ Matches q back) ∨
      Matches p [] ∧ Matches q (c :: cs) := by
  rw [matches_seq_iff]
  constructor
  · rintro ⟨front, back, split, inFirst, inSecond⟩
    cases front with
    | nil =>
      rw [List.nil_append] at split
      exact .inr ⟨inFirst, split ▸ inSecond⟩
    | cons head rest =>
      obtain ⟨rfl, rfl⟩ := List.cons.inj split
      exact .inl ⟨rest, back, rfl, inFirst, inSecond⟩
  · rintro (⟨front, back, rfl, inFirst, inSecond⟩ | ⟨empty, inSecond⟩)
    · exact ⟨c :: front, back, rfl, inFirst, inSecond⟩
    · exact ⟨[], c :: cs, rfl, empty, inSecond⟩

theorem matches_after : Matches (p.after c) cs ↔ Matches p (c :: cs) := by
  induction p generalizing cs with
  | never => exact ⟨nofun, nofun⟩
  | nothing => exact ⟨nofun, nofun⟩
  | one isIn =>
    rw [after]
    split
    · rename_i isIn
      constructor
      · rintro ⟨⟩
        exact .one isIn
      · rintro ⟨⟩
        exact .nothing
    · rename_i out
      refine ⟨nofun, fun matched => ?_⟩
      cases matched with
      | one isIn => exact absurd isIn out
  | seq p q first second =>
    have inFirst : Matches (andThen (p.after c) q) cs ↔
        ∃ front back, cs = front ++ back ∧ Matches p (c :: front) ∧ Matches q back := by
      simp only [matches_andThen, matches_seq_iff, first]
    rw [matches_seq_cons_iff, after]
    split
    · rename_i nullable
      rw [matches_orElse, inFirst, second, isNullable_iff.mp nullable |> iff_true_intro, true_and]
    · rename_i full
      rw [inFirst, or_iff_left fun later => full (isNullable_iff.mpr later.1)]
  | either p q first second => rw [after, matches_orElse, first, second, matches_either_iff]
  | many p body =>
    rw [after, matches_andThen, matches_seq_iff]
    constructor
    · rintro ⟨front, back, rfl, inBody, later⟩
      exact .more (body.mp inBody) later
    · intro matched
      cases matched with
      | more inBody later => exact ⟨_, _, rfl, body.mpr inBody, later⟩

theorem accepts_iff : p.accepts cs = true ↔ Matches p cs := by
  unfold accepts
  induction cs generalizing p with
  | nil => exact isNullable_iff
  | cons c cs ih => rw [List.foldl_cons, ih, matches_after]

/-! ### Characters -/

/-- Whether some class of the pattern has the character. -/
def mentions (c : Char) : Pattern → Bool
  | never | nothing => false
  | one isIn => isIn c
  | seq p q | either p q => p.mentions c || q.mentions c
  | many p => p.mentions c

theorem mentions_of_matches (matched : Matches p cs) : ∀ c ∈ cs, p.mentions c = true := by
  induction matched with
  | nothing => exact List.forall_mem_nil _
  | one isIn => exact List.forall_mem_singleton.mpr isIn
  | seq _ _ first second =>
    intro c here
    rw [mentions, Bool.or_eq_true]
    exact (List.mem_append.mp here).imp (first c) (second c)
  | first _ ih => exact fun c here => Bool.or_eq_true_iff.mpr (.inl (ih c here))
  | second _ ih => exact fun c here => Bool.or_eq_true_iff.mpr (.inr (ih c here))
  | done => exact List.forall_mem_nil _
  | more _ _ first later =>
    intro c here
    rw [← List.cons_append] at here
    exact (List.mem_append.mp here).elim (first c) (later c)

theorem matches_many {isIn : Char → Bool} (inClass : ∀ c ∈ cs, isIn c = true) :
    Matches (many (one isIn)) cs := by
  induction cs with
  | nil => exact .done
  | cons c rest ih =>
    obtain ⟨first, later⟩ := List.forall_mem_cons.mp inClass
    exact .more (.one first) (ih later)

theorem matches_repeated {isIn : Char → Bool} (nonempty : cs ≠ [])
    (inClass : ∀ c ∈ cs, isIn c = true) : Matches (repeated (one isIn)) cs := by
  obtain ⟨c, rest, rfl⟩ := List.exists_cons_of_ne_nil nonempty
  obtain ⟨first, later⟩ := List.forall_mem_cons.mp inClass
  exact .seq (.one first) (matches_many later)

end Text.Pattern

namespace Number

open Text.Pattern (Matches accepts_iff matches_many matches_repeated mentions_of_matches)

variable {cs sign body tail whole fraction : List Char} {negative : Bool} {e : Int} {s : String}
  {literal : Literal} {x : Float}

/-! ### Literals have the pattern of numbers -/

theorem isScriptDigit_of_isDigit {c : Char} (digit : c.isDigit = true) : isScriptDigit c = true := by
  simp only [Char.isDigit, Bool.and_eq_true, decide_eq_true_eq] at digit
  obtain ⟨low, high⟩ := digit
  have low : 48 ≤ c.toNat := low
  have high : c.toNat ≤ 57 := high
  refine List.any_eq_true.mpr ⟨48, List.mem_cons_self, ?_⟩
  rw [Bool.and_eq_true, decide_eq_true_eq, decide_eq_true_eq]
  omega

theorem IsDigits.matches (digits : IsDigits cs) : Matches Pattern.digits cs :=
  matches_repeated digits.1 fun c here => isScriptDigit_of_isDigit (digits.2 c here)

theorem SpellsSign.matches (spelled : SpellsSign sign negative) : Matches Pattern.sign sign := by
  cases spelled with
  | absent => exact .second .nothing
  | plus => exact .first (.one rfl)
  | minus => exact .first (.one rfl)

theorem SpellsDigits.matches (spelled : SpellsDigits body whole fraction) :
    Matches Pattern.decimal body := by
  cases spelled with
  | whole digits =>
    rw [← List.append_nil body]
    exact .first (.seq digits.matches (.second .nothing))
  | point digits places =>
    refine .first (.seq digits.matches (.first (.seq (.one rfl) ?_)))
    exact matches_many fun c here => isScriptDigit_of_isDigit (places c here)
  | fraction digits => exact .second (.seq (.one rfl) digits.matches)

theorem SpellsExponent.matches (spelled : SpellsExponent tail e) :
    Matches (.optional Pattern.power) tail := by
  cases spelled with
  | absent => exact .second .nothing
  | power mark spelled digits =>
    refine .first (.seq (.one ?_) (.seq spelled.matches digits.matches))
    rcases mark with rfl | rfl <;> rfl

theorem accepts_of_read? (read : Literal.read? (Text.trimChars cs) = some literal) :
    Pattern.number.accepts cs = true := by
  obtain ⟨before, after, blank, shape⟩ := Text.exists_trimChars cs
  obtain ⟨blank, blank'⟩ := List.forall_mem_append.mp blank
  obtain ⟨sign, body, tail, whole, fraction, exponent, trimmed, spelled, spelled', power, -⟩ :=
    read?_eq_some_iff.mp read
  rw [accepts_iff, shape, trimmed, List.append_assoc, List.append_assoc, List.append_assoc]
  exact .seq (matches_many blank) (.seq spelled.matches (.seq spelled'.matches
    (.seq power.matches (matches_many blank'))))

/-! ### Words do not -/

theorem eq_of_toLower_n {c : Char} (lower : c.toLower = 'n') : c = 'n' ∨ c = 'N' := by
  unfold Char.toLower at lower
  split at lower
  · have value : c.val + ('a'.val - 'A'.val) = 'N'.val + ('a'.val - 'A'.val) := congrArg Char.val lower
    exact .inr (Char.ext ((UInt32.add_left_inj _).mp value))
  · exact .inl lower

/-- All the words have the letter. -/
theorem exists_n_of_word? (named : word? cs = some x) : 'n' ∈ cs ∨ 'N' ∈ cs := by
  obtain ⟨sign, -, shape⟩ := @exists_splitSign cs _ _ rfl
  have inside : 'n' ∈ (String.ofList ((splitSign cs).2.map Char.toLower)).toList := by
    simp only [word?] at named
    split at named
    · rename_i word
      rcases word with word | word <;> rw [word] <;> decide
    · split at named
      · rename_i word
        rw [word]
        decide
      · cases named
  rw [String.toList_ofList] at inside
  obtain ⟨c, here, lower⟩ := List.mem_map.mp inside
  have present : c ∈ cs := shape ▸ List.mem_append_right sign here
  rcases eq_of_toLower_n lower with rfl | rfl
  · exact .inl present
  · exact .inr present

theorem word?_of_accepts (accepted : Pattern.number.accepts cs = true) :
    word? (Text.trimChars cs) = none := by
  rw [Option.eq_none_iff_forall_ne_some]
  intro x named
  obtain ⟨before, after, -, shape⟩ := Text.exists_trimChars cs
  have mentioned (c : Char) (here : c ∈ Text.trimChars cs) : Pattern.number.mentions c = true := by
    refine mentions_of_matches (accepts_iff.mp accepted) c ?_
    rw [shape]
    exact List.mem_append_left _ (List.mem_append_right _ here)
  rcases exists_n_of_word? named with here | here
  · exact absurd (mentioned 'n' here) (by decide)
  · exact absurd (mentioned 'N' here) (by decide)

/-- The pattern and the reader together accept the literals between blanks. -/
theorem accepts_and_read?_iff : Pattern.number.accepts cs = true ∧ read? (Text.trimChars cs) = some x ↔
    ∃ literal, Literal.read? (Text.trimChars cs) = some literal ∧ literal.toFloat = x := by
  constructor
  · rintro ⟨accepted, read⟩
    rw [read?, word?_of_accepts accepted, Option.or_none] at read
    exact Option.map_eq_some_iff.mp read
  · rintro ⟨literal, read, rfl⟩
    refine ⟨accepts_of_read? read, ?_⟩
    rw [read?, read]
    rfl

theorem ofText_of_read (read : Literal.read? (Text.trimChars s.toList) = some literal) :
    ofText s = Cell.finite literal.toFloat := by
  obtain ⟨accepted, value⟩ := accepts_and_read?_iff.mpr ⟨literal, read, rfl⟩
  rw [ofText, if_pos accepted, value]
  rfl

theorem ofText_of_unread (unread : Literal.read? (Text.trimChars s.toList) = none) :
    ofText s = none := by
  unfold ofText
  split
  · rename_i accepted
    rw [read?, unread, word?_of_accepts accepted]
    rfl
  · rfl

end Number

end Tableflow
