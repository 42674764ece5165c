import Tableflow.Calendar.Reading

/-!
The written form of a datetime is read back as the datetime that it shows: any year, any fraction of a
second, and leap seconds at the end of a minute. In a leap second elsewhere the written form is that of
the second after it, and so is what is read back.
-/

namespace Tableflow

namespace Number

/-! ### Digits -/

theorem digitValue_digitChar {d : Nat} (small : d < 10) : digitValue d.digitChar = d := by
  revert d
  decide

theorem readDigits_append (start : Nat) (cs ds : List Char) :
    readDigits start (cs ++ ds) = readDigits (readDigits start cs) ds :=
  List.foldl_append

theorem readDigits_zeros (count : Nat) : readDigits 0 (List.replicate count '0') = 0 := by
  induction count with
  | zero => rfl
  | succ count ih =>
    rw [List.replicate_succ]
    exact ih

theorem readDigits_toDigits (n : Nat) : readDigits 0 (Nat.toDigits 10 n) = n := by
  induction n using Nat.strongRecOn with
  | ind n ih =>
    rw [Nat.toDigits_eq_if (by decide)]
    split
    · rename_i small
      simp [readDigits, digitValue_digitChar small]
    · rename_i large
      rw [readDigits_append, ih (n / 10) (by omega)]
      simp only [readDigits, List.foldl_cons, List.foldl_nil,
        digitValue_digitChar (Nat.mod_lt n (by decide))]
      omega

/-- Digits end where something else than a digit stands. -/
theorem spanDigits_append {cs rest : List Char} (digits : ∀ c ∈ cs, c.isDigit = true)
    (ends : rest.takeWhile Char.isDigit = []) : spanDigits (cs ++ rest) = (cs, rest) := by
  have left : rest.dropWhile Char.isDigit = rest := by
    have split := @List.takeWhile_append_dropWhile _ Char.isDigit rest
    rwa [ends, List.nil_append] at split
  rw [spanDigits, List.takeWhile_append_of_pos digits, List.dropWhile_append_of_pos digits, ends,
    left, List.append_nil]

theorem spanDigits_eq_self {cs : List Char} (digits : ∀ c ∈ cs, c.isDigit = true) :
    spanDigits cs = (cs, []) := by
  have span := @spanDigits_append cs [] digits rfl
  rwa [List.append_nil] at span

end Number

namespace Date

theorem of?_self (d : Date) : of? d.year d.month d.day = some d := by
  simp only [of?, d.inYears, d.inMonths, d.inDays, and_self, dite_true]

theorem month_lt (d : Date) : d.month < 100 := Nat.lt_of_le_of_lt d.inMonths.2 (by decide)

theorem day_lt (d : Date) : d.day < 100 := by
  refine Nat.lt_of_le_of_lt d.inDays.2 ?_
  unfold daysInMonth
  repeat' split
  all_goals decide

end Date

namespace Datetime

open Number (readDigits readDigits_append readDigits_zeros readDigits_toDigits spanDigits tenTo)
open Text (isBlank dropBlanks dropBlanks_eq_self isBlank_of_isDigit trimChars_eq_self)

theorem readDigits_padded (width n : Nat) : readDigits 0 (padded width n) = n := by
  rw [padded, readDigits_append, readDigits_zeros, readDigits_toDigits]

theorem isDigit_of_mem_padded {width n : Nat} {c : Char} (here : c ∈ padded width n) :
    c.isDigit = true := by
  rcases List.mem_append.mp here with zero | digit
  · rw [List.eq_of_mem_replicate zero]
    rfl
  · exact Nat.isDigit_of_mem_toDigits (by decide) (by decide) digit

theorem length_padded {width n : Nat} (positive : 0 < width) (small : n < tenTo width) :
    (padded width n).length = width := by
  have fits := (Nat.length_toDigits_le_iff (by decide) positive).mpr small
  simp only [padded, List.length_append, List.length_replicate]
  omega

theorem padded_ne_nil (width n : Nat) : padded width n ≠ [] := by
  simp [padded, Nat.toDigits_ne_nil]

theorem exists_digit_padded (width n : Nat) :
    ∃ c rest, padded width n = c :: rest ∧ c.isDigit = true := by
  obtain ⟨c, rest, whole⟩ := List.exists_cons_of_ne_nil (padded_ne_nil width n)
  exact ⟨c, rest, whole, isDigit_of_mem_padded (whole ▸ List.mem_cons_self)⟩

theorem dropBlanks_padded (width n : Nat) (rest : List Char) :
    dropBlanks (padded width n ++ rest) = padded width n ++ rest := by
  obtain ⟨c, digits, whole, digit⟩ := exists_digit_padded width n
  refine dropBlanks_eq_self fun first start => ?_
  rw [whole] at start
  obtain rfl := Option.some.inj start
  exact isBlank_of_isDigit digit

/-! ### Parts, each read from its written form with anything but digits behind -/

section

variable {width n : Nat} {rest : List Char}

theorem exactly?_padded (positive : 0 < width) (small : n < tenTo width) (rest : List Char) :
    exactly? width (padded width n ++ rest) = some (n, rest) := by
  have length := length_padded positive small
  have digits : (padded width n).all Char.isDigit = true :=
    List.all_eq_true.mpr fun _ here => isDigit_of_mem_padded here
  have taken : (padded width n ++ rest).take width = padded width n := by
    rw [List.take_append_of_le_length (by omega), List.take_of_length_le (by omega)]
  have dropped : (padded width n ++ rest).drop width = rest := by
    rw [List.drop_append_of_le_length (by omega), List.drop_of_length_le (by omega), List.nil_append]
  simp only [exactly?, taken, dropped, digits, length, decide_true, Bool.and_self, if_true,
    readDigits_padded]

theorem upTo?_padded {most : Nat} (fits : (padded width n).length ≤ most)
    (ends : rest.takeWhile Char.isDigit = []) :
    upTo? most (padded width n ++ rest) = some (n, rest) := by
  have taken : ((padded width n ++ rest).takeWhile Char.isDigit).take most = padded width n := by
    rw [List.takeWhile_append_of_pos fun _ here => isDigit_of_mem_padded here, ends,
      List.append_nil, List.take_of_length_le fits]
  have some : (padded width n).isEmpty = false := by
    simp [padded_ne_nil]
  simp only [upTo?, taken, some, Bool.false_eq_true, if_false, readDigits_padded, List.drop_left]

theorem field?_padded (small : n < 100) (rest : List Char) (ends : rest.takeWhile Char.isDigit = []) :
    field? (padded 2 n ++ rest) = some (n, rest) := by
  rw [field?, dropBlanks_padded]
  exact upTo?_padded (Nat.le_of_eq (length_padded (by decide) small)) ends

theorem fraction?_padded (positive : 0 < width) (most : width ≤ 9) (small : n < tenTo width) :
    fraction? ('.' :: padded width n) = some (n * tenTo (9 - width), []) := by
  have span := @Number.spanDigits_eq_self (padded width n) fun _ => isDigit_of_mem_padded
  have length := length_padded positive small
  have some : (padded width n).isEmpty = false := by
    simp [padded_ne_nil]
  have kept : (padded width n).take 9 = padded width n := List.take_of_length_le (by omega)
  simp only [fraction?, span, some, Bool.false_eq_true, if_false, kept, readDigits_padded, length]

end

theorem fraction?_fractionChars {nanosecond : Nat} (small : nanosecond < 1000000000) :
    fraction? (fractionChars nanosecond) = some (nanosecond, []) := by
  unfold fractionChars
  split
  · rename_i none
    rw [none]
    rfl
  split
  · rename_i whole
    have places : nanosecond / 1000000 < 1000 := by omega
    rw [fraction?_padded (by decide) (by decide) places, show tenTo (9 - 3) = 1000000 from rfl,
      Nat.div_mul_cancel (Nat.dvd_of_mod_eq_zero whole)]
  split
  · rename_i whole
    have places : nanosecond / 1000 < 1000000 := by omega
    rw [fraction?_padded (by decide) (by decide) places, show tenTo (9 - 6) = 1000 from rfl,
      Nat.div_mul_cancel (Nat.dvd_of_mod_eq_zero whole)]
  · rw [fraction?_padded (by decide) (by decide) small, show tenTo (9 - 9) = 1 from rfl, Nat.mul_one]

theorem year?_yearChars (year : Int) {rest : List Char} (ends : rest.takeWhile Char.isDigit = []) :
    year? (yearChars year ++ rest) = some (year, rest) := by
  have signed : upTo? (padded 4 year.natAbs ++ rest).length (padded 4 year.natAbs ++ rest) =
      some (year.natAbs, rest) := upTo?_padded (by simp) ends
  unfold yearChars
  split
  · have value : -(year.natAbs : Int) = year := by omega
    rw [List.cons_append, year?, dropBlanks_eq_self (by simp; decide)]
    simp only [signed, Option.map_some, value]
  split
  · have value : (year.natAbs : Int) = year := by omega
    have plain : upTo? 4 (padded 4 year.natAbs ++ rest) = some (year.natAbs, rest) :=
      upTo?_padded (Nat.le_of_eq (length_padded (by decide) (show _ < 10000 by omega))) ends
    rw [year?, dropBlanks_padded]
    -- the first digit is neither of the signs
    obtain ⟨c, digits, whole, digit⟩ := exists_digit_padded 4 year.natAbs
    rw [whole] at plain ⊢
    split
    · rename_i clash
      obtain ⟨rfl, -⟩ := List.cons.inj clash
      cases digit
    · rename_i clash
      obtain ⟨rfl, -⟩ := List.cons.inj clash
      cases digit
    · simp only [plain, Option.map_some, value]
  · have value : (year.natAbs : Int) = year := by omega
    rw [List.cons_append, year?, dropBlanks_eq_self (by simp; decide)]
    simp only [signed, Option.map_some, value]

/-! ### Leap seconds -/

/-- Leap seconds come at the end of a minute only, where clocks have them. -/
def IsRegular (d : Datetime) : Prop := nanosPerSecond ≤ d.nanosecond → d.second = 59

instance (d : Datetime) : Decidable d.IsRegular := inferInstanceAs (Decidable (_ → _))

/-- The regular datetime that is written alike. -/
def settled (d : Datetime) : Datetime :=
  if early : nanosPerSecond ≤ d.nanosecond ∧ d.second < 59 then
    { d with
      second := d.second + 1
      nanosecond := d.nanosecond - nanosPerSecond
      inDay := by
        have inDay := d.inDay
        simp only [nanosPerSecond] at early ⊢
        omega }
  else d

theorem settled_eq_self_iff {d : Datetime} : d.settled = d ↔ d.IsRegular := by
  have second := d.inDay.2.2.1
  unfold settled IsRegular
  split
  · rename_i early
    constructor
    · intro same
      have seconds : d.second + 1 = d.second := congrArg Datetime.second same
      omega
    · intro regular
      have last := regular early.1
      omega
  · rename_i regular
    refine ⟨fun _ leap => ?_, fun _ => rfl⟩
    have late : ¬ d.second < 59 := fun early => regular ⟨leap, early⟩
    omega

/-- Inside a leap second in the middle of a minute. -/
def midLeap : Datetime :=
  ⟨⟨2016, 7, 8, by decide, by decide, by decide⟩, 23, 56, 4, 1333333333, by decide⟩

example : midLeap.toText = "2016-07-08T23:56:05.333333333" ∧ ¬ midLeap.IsRegular :=
  ⟨by rfl, by decide⟩

theorem of?_self (d : Datetime) : of? d.date d.hour d.minute d.second d.nanosecond = some d := by
  simp only [of?, d.inDay, and_self, dite_true]

theorem of?_eq_some {date : Date} {hour minute second nanosecond : Nat} {d : Datetime} :
    of? date hour minute second nanosecond = some d ↔ d.date = date ∧ d.hour = hour ∧
      d.minute = minute ∧ d.second = second ∧ d.nanosecond = nanosecond := by
  constructor
  · intro made
    unfold of? at made
    split at made
    · obtain rfl := Option.some.inj made
      exact ⟨rfl, rfl, rfl, rfl, rfl⟩
    · cases made
  · rintro ⟨rfl, rfl, rfl, rfl, rfl⟩
    exact of?_self d

theorem isRegular_of_ofClock? {date : Date} {hour minute second nanosecond : Nat} {d : Datetime}
    (made : ofClock? date hour minute second nanosecond = some d) : d.IsRegular := by
  unfold ofClock? at made
  split at made
  · split at made
    · exact fun _ => (of?_eq_some.mp made).2.2.2.1
    · rename_i small _
      intro leap
      rw [(of?_eq_some.mp made).2.2.2.2] at leap
      omega
  · cases made

/-- What a clock shows is the regular datetime. -/
theorem ofClock?_shown (d : Datetime) :
    ofClock? d.date d.hour d.minute (d.second + d.nanosecond / nanosPerSecond)
      (d.nanosecond % nanosPerSecond) = some d.settled := by
  obtain ⟨-, -, second, nanosecond⟩ := d.inDay
  have fraction : d.nanosecond % nanosPerSecond < nanosPerSecond := Nat.mod_lt _ (by decide)
  have self := d.of?_self
  rw [ofClock?, if_pos fraction]
  by_cases leap : nanosPerSecond ≤ d.nanosecond
  · have next : d.nanosecond / nanosPerSecond = 1 := by
      simp only [nanosPerSecond] at leap ⊢
      omega
    have rest : d.nanosecond % nanosPerSecond = d.nanosecond - nanosPerSecond := by
      simp only [nanosPerSecond] at leap ⊢
      omega
    rw [next, rest]
    by_cases last : d.second = 59
    · rw [if_pos (by rw [last]), Nat.sub_add_cancel leap, ← last, self,
        settled_eq_self_iff.mpr fun _ => last]
    · have early : d.second < 59 := by omega
      have later : d.settled = _ := dif_pos ⟨leap, early⟩
      rw [if_neg (by omega), later]
      exact dif_pos _
  · have whole : d.nanosecond < nanosPerSecond := Nat.lt_of_not_le leap
    rw [Nat.div_eq_of_lt whole, Nat.mod_eq_of_lt whole, Nat.add_zero, if_neg (by omega), self,
      settled_eq_self_iff.mpr fun there => absurd there leap]

/-! ### The whole -/

theorem date?_written (d : Date) {rest : List Char} (ends : rest.takeWhile Char.isDigit = []) :
    date? (yearChars d.year ++ '-' :: (padded 2 d.month ++ '-' :: (padded 2 d.day ++ rest))) =
      some (d, rest) := by
  rw [date?, year?_yearChars _ rfl]
  simp only [Option.bind_eq_bind, Option.bind_some, expect?, if_true, field?_padded d.month_lt ('-' :: _) rfl,
    field?_padded d.day_lt rest ends, Date.of?_self]
  rfl

theorem shown_lt (d : Datetime) : d.second + d.nanosecond / nanosPerSecond < 100 ∧
    d.nanosecond % nanosPerSecond < 1000000000 := by
  have inDay := d.inDay
  simp only [nanosPerSecond]
  omega

theorem timeOn?_written (d : Datetime) :
    timeOn? d.date (padded 2 d.hour ++ ':' :: (padded 2 d.minute ++ ':' ::
      (padded 2 (d.second + d.nanosecond / nanosPerSecond) ++
        fractionChars (d.nanosecond % nanosPerSecond)))) = some d.settled := by
  obtain ⟨hour, minute, -, -⟩ := d.inDay
  obtain ⟨second, nanosecond⟩ := d.shown_lt
  have ends : (fractionChars (d.nanosecond % nanosPerSecond)).takeWhile Char.isDigit = [] := by
    unfold fractionChars
    repeat' split
    all_goals rfl
  simp only [timeOn?, Option.bind_eq_bind, Option.bind_some, expect?, if_true,
    field?_padded (Nat.lt_trans hour (by decide)) (':' :: _) rfl,
    field?_padded (Nat.lt_trans minute (by decide)) (':' :: _) rfl,
    field?_padded second _ ends, fraction?_fractionChars nanosecond, List.isEmpty_nil, ofClock?_shown]

theorem toChars_eq (d : Datetime) :
    d.toChars = yearChars d.date.year ++ '-' :: (padded 2 d.date.month ++ '-' ::
      (padded 2 d.date.day ++ 'T' :: (padded 2 d.hour ++ ':' :: (padded 2 d.minute ++ ':' ::
        (padded 2 (d.second + d.nanosecond / nanosPerSecond) ++
          fractionChars (d.nanosecond % nanosPerSecond)))))) := by
  simp [toChars]

theorem joined?_toChars (d : Datetime) : joined? d.toChars = some d.settled := by
  rw [toChars_eq, joined?, date?_written _ rfl]
  exact timeOn?_written d

theorem exactly?_sign {c : Char} (sign : c.isDigit = false) (rest : List Char) :
    exactly? 4 (c :: rest) = none := by
  simp [exactly?, sign]

/-- The written form has no offset. -/
theorem instant?_toChars (d : Datetime) : instant? d.toChars = none := by
  obtain ⟨hour, minute, -, -⟩ := d.inDay
  obtain ⟨second, nanosecond⟩ := d.shown_lt
  rw [toChars_eq, instant?, yearChars]
  split
  · rw [List.cons_append, exactly?_sign rfl]
    rfl
  split
  · have year : d.date.year.natAbs < 10000 := by omega
    simp only [Option.bind_eq_bind, Option.bind_some, expect?, if_true, true_or,
      @exactly?_padded 4 _ (by decide) year, @exactly?_padded 2 _ (by decide) d.date.month_lt,
      @exactly?_padded 2 _ (by decide) d.date.day_lt,
      @exactly?_padded 2 _ (by decide) (Nat.lt_trans hour (by decide)),
      @exactly?_padded 2 _ (by decide) (Nat.lt_trans minute (by decide)),
      @exactly?_padded 2 _ (by decide) second,
      fraction?_fractionChars nanosecond]
    rfl
  · rw [List.cons_append, exactly?_sign rfl]
    rfl

/-- Written forms have no blanks. -/
theorem shown_toChars (d : Datetime) : d.toChars.all (fun c => !isBlank c) = true := by
  have digits (width n : Nat) : (padded width n).all (fun c => !isBlank c) = true := by
    refine List.all_eq_true.mpr fun c here => ?_
    rw [isBlank_of_isDigit (isDigit_of_mem_padded here), Bool.not_false]
  have year : (yearChars d.date.year).all (fun c => !isBlank c) = true := by
    have minus : isBlank '-' = false := rfl
    have plus : isBlank '+' = false := rfl
    unfold yearChars
    repeat' split
    all_goals simp [digits, minus, plus]
  have fraction : (fractionChars (d.nanosecond % nanosPerSecond)).all (fun c => !isBlank c) = true := by
    have point : isBlank '.' = false := rfl
    unfold fractionChars
    repeat' split
    all_goals simp [digits, point]
  simp only [toChars_eq, List.all_append, List.all_cons, digits, year, fraction]
  rfl

theorem ofText?_toText (d : Datetime) : ofText? d.toText = some d.settled := by
  have trimmed : Text.trimChars d.toText.toList = d.toChars := by
    rw [toText, String.toList_ofList, trimChars_eq_self (by simpa using d.shown_toChars)]
  simp only [ofText?, trimmed, instant?_toChars, joined?_toChars, Option.none_or, Option.some_or]

/-! ### Whatever is read is regular -/

theorem isRegular_of_shift? {d e : Datetime} {minutes : Int} (regular : d.IsRegular)
    (shifted : d.shift? minutes = some e) : e.IsRegular := by
  obtain ⟨date, -, made⟩ := Option.bind_eq_some_iff.mp shifted
  obtain ⟨-, -, -, second, nanosecond⟩ := of?_eq_some.mp made
  rw [IsRegular, second, nanosecond]
  exact regular

theorem isRegular_of_ofMillis? {millis : Int} {d : Datetime} (made : ofMillis? millis = some d) :
    d.IsRegular := by
  obtain ⟨date, -, made⟩ := Option.bind_eq_some_iff.mp made
  intro leap
  rw [(of?_eq_some.mp made).2.2.2.2] at leap
  simp only [nanosPerSecond] at leap
  omega

/-- A value that is read part by part is what its last part makes it. -/
theorem isRegular_of_bind {α : Type} {part : Option α} {f : α → Option Datetime}
    (regular : ∀ a d, f a = some d → d.IsRegular) {d : Datetime} (read : part.bind f = some d) :
    d.IsRegular := by
  obtain ⟨a, -, read⟩ := Option.bind_eq_some_iff.mp read
  exact regular a d read

theorem isRegular_of_instant? {cs : List Char} {d : Datetime} (read : instant? cs = some d) :
    d.IsRegular := by
  refine isRegular_of_bind (fun _ _ => isRegular_of_bind fun _ _ => isRegular_of_bind fun _ _ timed =>
    ?_) read
  dsimp only at timed
  split at timed
  · split at timed
    · refine isRegular_of_bind (fun _ _ => isRegular_of_bind fun _ _ => isRegular_of_bind fun _ _ =>
        isRegular_of_bind fun _ _ => isRegular_of_bind fun _ _ => isRegular_of_bind fun _ _ read =>
        ?_) timed
      obtain ⟨here, made, shifted⟩ := Option.bind_eq_some_iff.mp read
      exact isRegular_of_shift? (isRegular_of_ofClock? made) shifted
    · cases timed
  · cases timed

theorem isRegular_of_timeOn? {date : Date} {cs : List Char} {d : Datetime}
    (read : timeOn? date cs = some d) : d.IsRegular := by
  refine isRegular_of_bind (fun _ _ => isRegular_of_bind fun _ _ => isRegular_of_bind fun _ _ =>
    isRegular_of_bind fun _ _ ended => ?_) read
  dsimp only at ended
  split at ended
  · exact isRegular_of_ofClock? ended
  · cases ended

theorem isRegular_of_ofText? {s : String} {d : Datetime} (read : ofText? s = some d) :
    d.IsRegular := by
  simp only [ofText?, Option.or_eq_some_iff] at read
  rcases read with instant | ⟨-, joined | ⟨-, spaced | ⟨-, alone⟩⟩⟩
  · exact isRegular_of_instant? instant
  · refine isRegular_of_bind (fun _ _ => isRegular_of_bind fun _ _ => ?_) joined
    exact isRegular_of_timeOn?
  · refine isRegular_of_bind (fun _ _ => ?_) spaced
    exact isRegular_of_timeOn?
  · refine isRegular_of_bind (fun _ d ended => ?_) alone
    dsimp only at ended
    split at ended
    · obtain rfl := Option.some.inj ended
      exact fun leap => absurd leap (by decide : ¬ nanosPerSecond ≤ 0)
    · cases ended

end Datetime

end Tableflow
