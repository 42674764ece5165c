import Mathlib.Tactic.IntervalCases
import Tableflow.Proofs.DatetimeText

/-!
Days are numbered one by one: every date has a number of its own, from which it comes back, over all
years of the calendar, those before 1970 and before the year zero too.
-/

namespace Tableflow

theorem isLeapYear_add_eras (year era : Int) : isLeapYear (year + era * 400) = isLeapYear year := by
  have four : (year + era * 400) % 4 = year % 4 := by omega
  have hundred : (year + era * 400) % 100 = year % 100 := by omega
  have whole : (year + era * 400) % 400 = year % 400 := by omega
  rw [isLeapYear, isLeapYear, four, hundred, whole]

theorem isLeapYear_iff {year : Int} :
    isLeapYear year = true ↔ year % 4 = 0 ∧ (year % 100 ≠ 0 ∨ year % 400 = 0) := by
  simp [isLeapYear]

namespace Date

variable {year month day era : Int}

/-! ### Years of an era -/

/-- Days of an era before one of its 400 years, which begin in March. -/
def daysBefore (year : Int) : Int := year * 365 + year / 4 - year / 100

/-- The days of a year of an era, counted from zero. The last of 366 is the leap day of the year that
has begun in January. -/
def InYear (year day : Int) : Prop := (0 ≤ day ∧ day ≤ 365) ∧ (day = 365 → isLeapYear (year + 1) = true)

/-- The year is found from the number of days by taking away the leap days: one in 1460 days, but for
one in 36524, but for one in 146096. -/
theorem yearOfEra_eq (years : 0 ≤ year ∧ year < 400) (inside : InYear year day) {dayOfEra : Int}
    (counted : dayOfEra = daysBefore year + day) :
    (dayOfEra - dayOfEra / 1460 + dayOfEra / 36524 - dayOfEra / 146096) / 365 = year := by
  obtain ⟨first, last⟩ := inside
  rw [isLeapYear_iff] at last
  -- centuries, cycles of four years and single years, of 36524, 1461 and 365 days
  obtain ⟨century, cycle, single, whole, centuries, cycles, singles⟩ : ∃ century cycle single : Int,
      year = 100 * century + 4 * cycle + single ∧ (0 ≤ century ∧ century ≤ 3) ∧
        (0 ≤ cycle ∧ cycle ≤ 24) ∧ 0 ≤ single ∧ single ≤ 3 :=
    ⟨year / 100, year % 100 / 4, year % 4, by omega, by omega, by omega, by omega⟩
  have total : dayOfEra = 36524 * century + (1461 * cycle + 365 * single + day) := by
    unfold daysBefore at counted
    omega
  have full : 1461 * cycle + 365 * single + day ≤ 36523 ∨
      1461 * cycle + 365 * single + day = 36524 ∧ century = 3 := by omega
  have dropped : dayOfEra / 36524 - dayOfEra / 146096 = century := by
    rcases full with less | ⟨last, rfl⟩
    · have whole : dayOfEra / 36524 = century := by omega
      have none : dayOfEra / 146096 = 0 := by omega
      omega
    · omega
  have leaps : dayOfEra / 1460 = 25 * century + cycle ∨ dayOfEra / 1460 = 25 * century + cycle + 1 := by
    omega
  omega

theorem exists_yearOfEra {dayOfEra : Int} (inEra : 0 ≤ dayOfEra ∧ dayOfEra < 146097) :
    ∃ year day, (0 ≤ year ∧ year < 400) ∧ InYear year day ∧ dayOfEra = daysBefore year + day := by
  -- the last century, and the last year of a cycle, have one day more than the others
  let century := min (dayOfEra / 36524) 3
  let cycle := (dayOfEra - 36524 * century) / 1461
  let single := min ((dayOfEra - 36524 * century - 1461 * cycle) / 365) 3
  have centuries : 0 ≤ century ∧ century ≤ 3 := by omega
  have cycles : 0 ≤ cycle ∧ cycle ≤ 24 := by omega
  have singles : 0 ≤ single ∧ single ≤ 3 := by omega
  have total : daysBefore (100 * century + 4 * cycle + single) =
      36524 * century + 1461 * cycle + 365 * single := by
    unfold daysBefore
    omega
  refine ⟨100 * century + 4 * cycle + single, dayOfEra - (36524 * century + 1461 * cycle + 365 * single),
    by omega, ⟨by omega, ?_⟩, by omega⟩
  rw [isLeapYear_iff]
  omega

theorem dayOfEra_lt (years : 0 ≤ year ∧ year < 400) (inside : InYear year day) :
    0 ≤ daysBefore year + day ∧ daysBefore year + day < 146097 := by
  obtain ⟨first, last⟩ := inside
  unfold daysBefore
  omega

/-! ### Dates of day numbers -/

/-- The number of a date whose year, counted from March, is year `year` of an era. -/
theorem dayNumberOf_eq (years : 0 ≤ year ∧ year < 400) {shifted : Int} {number count : Nat}
    (shift : (if number ≤ 2 then shifted - 1 else shifted) = year + era * 400)
    (days : ((153 * ((number + 9) % 12) + 2) / 5 + count - 1 : Nat) = day) :
    dayNumberOf shifted number count = era * 146097 + (daysBefore year + day) - 719468 := by
  have eras : (year + era * 400) / 400 = era := by omega
  have rest : (year + era * 400) % 400 = year := by omega
  unfold dayNumberOf
  simp only [shift, eras, rest, days]
  rfl

theorem civil_eq (years : 0 ≤ year ∧ year < 400) (inside : InYear year day)
    (found : (5 * day + 2) / 153 = month) (era : Int) :
    civil (era * 146097 + (daysBefore year + day) - 719468) =
      (year + era * 400 + (if month < 10 then 0 else 1), (if month < 10 then month + 3 else month - 9).toNat,
        (day - (153 * month + 2) / 5 + 1).toNat) := by
  obtain ⟨low, high⟩ := dayOfEra_lt years inside
  have days : era * 146097 + (daysBefore year + day) - 719468 + 719468 =
      era * 146097 + (daysBefore year + day) := by omega
  have eras : (era * 146097 + (daysBefore year + day)) / 146097 = era := by omega
  have dayOfEra : (era * 146097 + (daysBefore year + day)) % 146097 = daysBefore year + day := by omega
  have dayOfYear : daysBefore year + day - (365 * year + year / 4 - year / 100) = day := by
    unfold daysBefore
    omega
  unfold civil
  simp only [days, eras, dayOfEra, yearOfEra_eq years inside rfl, dayOfYear, found]
  have months : 0 ≤ month ∧ month ≤ 11 := by
    obtain ⟨⟨first, last⟩, _⟩ := inside
    omega
  congr 1
  split <;> omega

/-- Months that are counted from March have their days one after the other, and the leap day comes
last. -/
theorem dayOfYear_eq (d : Date) :
    let month := (d.month + 9) % 12
    let day := (153 * month + 2) / 5 + d.day - 1
    (5 * day + 2) / 153 = month ∧ day + 1 = (153 * month + 2) / 5 + d.day ∧ day ≤ 365 ∧
      (day = 365 → d.month = 2 ∧ isLeapYear d.year = true) := by
  obtain ⟨year, month, day, _, ⟨low, high⟩, first, last⟩ := d
  unfold daysInMonth at last
  dsimp only at *
  split at last
  · rename_i february
    subst february
    split at last
    · rename_i leap
      exact ⟨by omega, by omega, by omega, fun _ => ⟨rfl, leap⟩⟩
    · exact ⟨by omega, by omega, by omega, fun _ => by omega⟩
  · have ends : (5 * ((153 * ((month + 9) % 12) + 2) / 5 + day - 1) + 2) / 153 = (month + 9) % 12 ∧
        (153 * ((month + 9) % 12) + 2) / 5 + day - 1 ≤ 364 := by
      split at last
      · interval_cases month <;> omega
      · interval_cases month <;> omega
    exact ⟨by omega, by omega, by omega, fun _ => by omega⟩

/-- January and February are counted as the last months of the year before. -/
theorem monthOfYear_cases {month : Nat} (months : 1 ≤ month ∧ month ≤ 12) :
    month ≤ 2 ∧ (month + 9) % 12 = month + 9 ∧ 10 ≤ (month + 9) % 12 ∨
      2 < month ∧ month = (month + 9) % 12 + 3 ∧ (month + 9) % 12 < 10 := by
  omega

theorem civil_dayNumber (d : Date) : civil d.dayNumber = (d.year, d.month, d.day) := by
  obtain ⟨found, days, most, leap⟩ := d.dayOfYear_eq
  obtain ⟨shifted, shift⟩ : ∃ shifted, (if d.month ≤ 2 then d.year - 1 else d.year) = shifted := ⟨_, rfl⟩
  have years : 0 ≤ shifted % 400 ∧ shifted % 400 < 400 := by omega
  have number := @dayNumberOf_eq (shifted % 400) _ (shifted / 400) years _ _ d.day (by rw [shift]; omega) rfl
  have placed := monthOfYear_cases d.inMonths
  generalize (d.month + 9) % 12 = month at *
  generalize (153 * month + 2) / 5 + d.day - 1 = day at *
  have inside : InYear (shifted % 400) day := by
    refine ⟨by omega, fun last => ?_⟩
    obtain ⟨february, leap⟩ := leap (by omega)
    have whole : shifted % 400 + 1 + shifted / 400 * 400 = d.year := by omega
    rwa [← isLeapYear_add_eras _ (shifted / 400), whole]
  have back : ((day : Int) - (153 * month + 2) / 5 + 1).toNat = d.day := by omega
  have found : (5 * (day : Int) + 2) / 153 = month := by omega
  rw [dayNumber, number, civil_eq years inside found, back]
  rcases placed with ⟨early, counted, above⟩ | ⟨late, counted, below⟩
  · rw [if_pos early] at shift
    rw [if_neg (by omega), if_neg (by omega)]
    congr 1
    · omega
    · congr 1
      omega
  · rw [if_neg (by omega)] at shift
    rw [if_pos (by omega), if_pos (by omega)]
    congr 1
    · omega
    · congr 1
      omega

theorem dayNumberOf_civil (number : Int) :
    dayNumberOf (civil number).1 (civil number).2.1 (civil number).2.2 = number := by
  obtain ⟨year, day, years, inside, counted⟩ :=
    @exists_yearOfEra ((number + 719468) % 146097) (by omega)
  obtain ⟨era, whole⟩ : ∃ era, number = era * 146097 + (daysBefore year + day) - 719468 :=
    ⟨(number + 719468) / 146097, by omega⟩
  obtain ⟨month, found⟩ : ∃ month, (5 * day + 2) / 153 = month := ⟨_, rfl⟩
  rw [whole, civil_eq years inside found]
  obtain ⟨⟨first, last⟩, _⟩ := inside
  have months : 0 ≤ month ∧ month ≤ 11 := by omega
  have begun : (153 * month + 2) / 5 ≤ day := by omega
  apply dayNumberOf_eq years <;> dsimp only
  · split <;> split <;> omega
  · have back : ((if month < 10 then month + 3 else month - 9).toNat + 9) % 12 = month.toNat := by
      split <;> omega
    rw [back]
    omega

theorem of?_eq_some {year : Int} {month day : Nat} {d : Date} :
    of? year month day = some d ↔ d.year = year ∧ d.month = month ∧ d.day = day := by
  constructor
  · intro made
    unfold of? at made
    split at made
    · split at made
      · split at made
        · obtain rfl := Option.some.inj made
          exact ⟨rfl, rfl, rfl⟩
        · cases made
      · cases made
    · cases made
  · rintro ⟨rfl, rfl, rfl⟩
    exact of?_self d

/-- Dates and day numbers determine each other. -/
theorem ofDayNumber?_eq_some {number : Int} {d : Date} : ofDayNumber? number = some d ↔ d.dayNumber = number := by
  constructor
  · intro made
    obtain ⟨year, month, day⟩ := of?_eq_some.mp made
    rw [dayNumber, year, month, day]
    exact dayNumberOf_civil number
  · rintro rfl
    unfold ofDayNumber?
    rw [civil_dayNumber]
    exact of?_self d

theorem dayNumber_bounds (d : Date) : -97000000 ≤ d.dayNumber ∧ d.dayNumber ≤ 96000000 := by
  obtain ⟨_, _, most, _⟩ := d.dayOfYear_eq
  obtain ⟨low, high⟩ := d.inYears
  unfold dayNumber dayNumberOf
  dsimp only
  generalize (153 * ((d.month + 9) % 12) + 2) / 5 + d.day - 1 = day at *
  omega

end Date

end Tableflow
