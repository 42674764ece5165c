import Tableflow.Proofs.DayNumbers
import Tableflow.Proofs.DelimitedTables
import Tableflow.Proofs.Integers

/-!
Conversions that undo each other. Datetimes and numbers come back from their texts, leap seconds
only from the end of a minute. Datetimes come back from their milliseconds since 1970 but for what is
less than a millisecond, because every count of milliseconds in the calendar is a number.
-/

namespace Tableflow

/-! ### Milliseconds -/

namespace Datetime

/-- A count of milliseconds is that of one datetime at most, outside of leap seconds and without
parts of a millisecond. -/
theorem ofMillis?_eq_some {millis : Int} {d : Datetime} : ofMillis? millis = some d ↔
    d.toMillis = millis ∧ d.nanosecond < 1000000000 ∧ d.nanosecond % 1000000 = 0 := by
  unfold ofMillis? toMillis
  simp only [Option.bind_eq_bind, Option.bind_eq_some_iff, Date.ofDayNumber?_eq_some, of?_eq_some, millisPerDay]
  constructor
  · rintro ⟨date, number, rfl, hour, minute, second, nanosecond⟩
    omega
  · rintro ⟨rfl, ordinary, nanosecond⟩
    obtain ⟨hour, minute, second, _⟩ := d.inDay
    refine ⟨d.date, ?_, rfl, ?_⟩
    · omega
    · omega

/-- The same time without the part of a millisecond. -/
def wholeMillis (d : Datetime) : Datetime :=
  { d with
    nanosecond := d.nanosecond / 1000000 * 1000000
    inDay := by
      have inDay := d.inDay
      omega }

theorem wholeMillis_eq_self {d : Datetime} (whole : d.nanosecond % 1000000 = 0) : d.wholeMillis = d := by
  have same : d.nanosecond / 1000000 * 1000000 = d.nanosecond := by omega
  obtain ⟨date, hour, minute, second, nanosecond, inDay⟩ := d
  simp only [wholeMillis, same]

theorem toMillis_wholeMillis (d : Datetime) : d.wholeMillis.toMillis = d.toMillis := by
  have same : d.nanosecond / 1000000 * 1000000 / 1000000 = d.nanosecond / 1000000 := by omega
  simp only [toMillis, wholeMillis, same]

theorem ofMillis?_toMillis {d : Datetime} (ordinary : d.nanosecond < 1000000000) :
    ofMillis? d.toMillis = some d.wholeMillis := by
  refine ofMillis?_eq_some.mpr ⟨d.toMillis_wholeMillis, ?_, Nat.mul_mod_left _ _⟩
  show d.nanosecond / 1000000 * 1000000 < 1000000000
  omega

/-- All counts of milliseconds in the calendar are below `2^53`. -/
theorem natAbs_toMillis_le (d : Datetime) : d.toMillis.natAbs ≤ 2 * Number.hiddenBit := by
  obtain ⟨low, high⟩ := d.date.dayNumber_bounds
  obtain ⟨hour, minute, second, nanosecond⟩ := d.inDay
  unfold toMillis Number.hiddenBit
  omega

/-- Counts of milliseconds that 64 bits do not hold lie outside of the calendar, and so do those that
are put in their place. -/
theorem ofMillis?_saturate (n : Int) : ofMillis? (Number.saturate n) = ofMillis? n := by
  have outside {m : Int} (large : 2 * Number.hiddenBit < m.natAbs) : ofMillis? m = none := by
    rw [Option.eq_none_iff_forall_ne_some]
    intro d made
    have small := d.natAbs_toMillis_le
    rw [(ofMillis?_eq_some.mp made).1] at small
    omega
  by_cases held : Number.saturate n = n
  · rw [held]
  · have large : 2 * Number.hiddenBit < n.natAbs ∧
        2 * Number.hiddenBit < (Number.saturate n).natAbs := by
      unfold Number.saturate at held ⊢
      unfold Number.hiddenBit
      omega
    rw [outside large.1, outside large.2]

end Datetime

namespace Cell

theorem toNumber_datetime (d : Datetime) :
    toNumber (some (.datetime d)) = some (.number (Number.ofInt d.toMillis)) := by
  have small := d.natAbs_toMillis_le
  have finite : (Number.ofInt d.toMillis).isFinite = true :=
    Number.isFinite_whole (small.trans_lt (by decide))
  rw [toNumber, Cell.finite, if_pos finite]

theorem toDatetime_ofInt {n : Int} (small : n.natAbs ≤ 2 * Number.hiddenBit) :
    toDatetime (some (.number (Number.ofInt n))) = (Datetime.ofMillis? n).map Value.datetime := by
  rw [toDatetime, Number.truncate?_of_toInt? (Number.toInt?_ofInt small), Option.bind_some,
    Datetime.ofMillis?_saturate]

theorem toDatetime_number {x : Float} {d : Datetime}
    (dated : toDatetime (some (.number x)) = some (.datetime d)) :
    ∃ r, Number.IsExactly x r ∧ d.toMillis = Number.towardZero r := by
  obtain ⟨_, found, same⟩ := Option.map_eq_some_iff.mp dated
  obtain rfl := Value.datetime.inj same
  obtain ⟨n, cut, made⟩ := Option.bind_eq_some_iff.mp found
  rw [Datetime.ofMillis?_saturate] at made
  rw [Number.truncate?_eq] at cut
  obtain ⟨p, decoded, rfl⟩ := Option.map_eq_some_iff.mp cut
  exact ⟨p.value, ⟨p, decoded, rfl⟩, (Datetime.ofMillis?_eq_some.mp made).1⟩

/-- A datetime outside of leap seconds comes back from its number without the part of a millisecond,
and a number of milliseconds comes back from its datetime rounded towards zero. No count of
milliseconds between two datetimes is rounded on the way. -/
theorem milliseconds_invert :
    (∀ d : Datetime, d.nanosecond < 1000000000 →
      toDatetime (toNumber (some (.datetime d))) = some (.datetime d.wholeMillis) ∧
      (d.nanosecond % 1000000 = 0 → d.wholeMillis = d)) ∧
    (∀ (x : Float) (d : Datetime), toDatetime (some (.number x)) = some (.datetime d) →
      ∃ r y, Number.IsExactly x r ∧ toNumber (some (.datetime d)) = some (.number y) ∧
        Number.IsExactly y (Number.towardZero r)) ∧
    (∀ d : Datetime, toNumber (some (.datetime d)) = some (.number (Number.ofInt d.toMillis))) ∧
    ∀ (first last : Datetime) (n : Int), first.toMillis ≤ n → n ≤ last.toMillis →
      Number.IsExactly (Number.ofInt n) n := by
  have exact {n : Int} (small : n.natAbs ≤ 2 * Number.hiddenBit) : Number.IsExactly (Number.ofInt n) n :=
    Number.isExactly_of_toInt? (Number.toInt?_ofInt small)
  refine ⟨?_, ?_, toNumber_datetime, ?_⟩
  · intro d ordinary
    refine ⟨?_, Datetime.wholeMillis_eq_self⟩
    rw [toNumber_datetime, toDatetime_ofInt d.natAbs_toMillis_le, Datetime.ofMillis?_toMillis ordinary]
    rfl
  · intro x d dated
    obtain ⟨r, value, counted⟩ := toDatetime_number dated
    refine ⟨r, _, value, toNumber_datetime d, ?_⟩
    rw [← counted]
    exact exact d.natAbs_toMillis_le
  · intro first last n above below
    have low := first.natAbs_toMillis_le
    have high := last.natAbs_toMillis_le
    exact exact (by omega)

/-- The last nanosecond before 1970. -/
def eve : Datetime :=
  ⟨(Date.ofDayNumber? (-1)).get (by decide), 23, 59, 59, 999999999, by decide⟩

/-- The first moment of the calendar. -/
def beginning : Datetime :=
  .midnight { Date.epoch with year := -262143, inYears := by decide, inDays := by decide }

theorem milliseconds_invert_eve :
    eve.nanosecond < 1000000000 ∧ eve.wholeMillis.nanosecond = 999000000 ∧ eve.toMillis = -1 ∧
    toDatetime (toNumber (some (.datetime eve))) = some (.datetime eve.wholeMillis) ∧
    toDatetime (toNumber (some (.datetime beginning))) = some (.datetime beginning) ∧
    toDatetime (some (.number (-1.5))) = some (.datetime eve.wholeMillis) ∧
    (∃ r y, Number.IsExactly (-1.5) r ∧
      toNumber (some (.datetime eve.wholeMillis)) = some (.number y) ∧
      Number.IsExactly y (Number.towardZero r)) ∧
    Number.IsExactly (Number.ofInt (-8334601228799999)) (-8334601228799999 : Int) := by
  obtain ⟨restore, cut, _, exact⟩ := milliseconds_invert
  have whole : beginning.wholeMillis = beginning := (restore beginning (by decide)).2 (by decide)
  have dated : toDatetime (some (.number (-1.5))) = some (.datetime eve.wholeMillis) := by rfl
  refine ⟨by decide, by decide, by decide, (restore eve (by decide)).1, ?_, dated, cut _ _ dated,
    exact beginning eve _ (by decide) (by decide)⟩
  rw [(restore beginning (by decide)).1, whole]

end Cell

/-! ### Texts -/

namespace Expr

variable {e : Expr} {row : Row} {index : Nat} {cell : Cell}

theorem eval_convert (evaluated : e.eval row index = .ok cell) (op : UnaryOp) :
    (unary op e).eval row index = op.apply cell := by
  rw [eval, evaluated]
  rfl

theorem eval_toText {v : Value} (evaluated : e.eval row index = .ok (some v)) :
    (unary (.convert .text) e).eval row index = .ok (some (.text v.toText)) :=
  eval_convert evaluated (.convert .text)

theorem eval_again {d : Datetime} (evaluated : e.eval row index = .ok (some (.datetime d))) :
    (unary (.convert .datetime) (unary (.convert .text) e)).eval row index =
      .ok (some (.datetime d.settled)) := by
  rw [eval_convert (eval_toText evaluated)]
  show Except.ok ((Datetime.ofText? d.toText).map Value.datetime) = _
  rw [d.ofText?_toText]
  rfl

/-- An expression with a datetime for its value has it again when it is converted to text and back,
unless it is in a leap second in the middle of a minute, which comes back as the second after it. No
text of a datetime is converted to a number; an expression with a finite number has that again. -/
theorem texts_invert (e : Expr) (row : Row) (index : Nat) :
    (∀ d : Datetime, e.eval row index = .ok (some (.datetime d)) →
      (d.IsRegular → (unary (.convert .datetime) (unary (.convert .text) e)).eval row index =
        .ok (some (.datetime d))) ∧
      (unary (.convert .datetime) (unary (.convert .text) e)).eval row index =
        .ok (some (.datetime d.settled)) ∧
      (unary (.convert .number) (unary (.convert .text) e)).eval row index = .ok none) ∧
    ∀ x : Float, x.isFinite = true → e.eval row index = .ok (some (.number x)) →
      (unary (.convert .number) (unary (.convert .text) e)).eval row index = .ok (some (.number x)) := by
  refine ⟨fun d evaluated => ⟨fun regular => ?_, eval_again evaluated, ?_⟩, fun x finite evaluated => ?_⟩
  · rw [eval_again evaluated, Datetime.settled_eq_self_iff.mpr regular]
  · rw [eval_convert (eval_toText evaluated)]
    show Except.ok (Number.ofText d.toText) = _
    rw [d.ofText_toText]
  · rw [eval_convert (eval_toText evaluated)]
    show Except.ok (Number.ofText (Number.toText x)) = _
    rw [Number.ofText_toText finite]

/-- A leap second in a year of five digits before the year zero. -/
def leapSecond : Datetime :=
  ⟨⟨-12000, 9, 30, by decide, by decide, by decide⟩, 23, 59, 59, 1000250000, by decide⟩

theorem texts_invert_leapSecond :
    let row : Row := .ofList [("time", some (.datetime leapSecond)), ("size", some (.number (-0)))]
    (column "time").eval row 3 = .ok (some (.datetime leapSecond)) ∧
    (unary (.convert .text) (column "time")).eval row 3 =
      .ok (some (.text "-12000-09-30T23:59:60.000250")) ∧
    (unary (.convert .datetime) (unary (.convert .text) (column "time"))).eval row 3 =
      .ok (some (.datetime leapSecond)) ∧
    (unary (.convert .number) (unary (.convert .text) (column "time"))).eval row 3 = .ok none ∧
    (unary (.convert .number) (unary (.convert .text) (column "size"))).eval row 3 =
      .ok (some (.number (-0))) := by
  intro row
  have time := (texts_invert (column "time") row 3).1 leapSecond rfl
  have size := (texts_invert (column "size") row 3).2 (-0) rfl rfl
  exact ⟨rfl, by rfl, time.1 (by decide), time.2.2, size⟩

theorem texts_move_midLeap :
    let row : Row := .ofList [("time", some (.datetime .midLeap))]
    (column "time").eval row 0 = .ok (some (.datetime .midLeap)) ∧
    (unary (.convert .text) (column "time")).eval row 0 =
      .ok (some (.text "2016-07-08T23:56:05.333333333")) ∧
    (unary (.convert .datetime) (unary (.convert .text) (column "time"))).eval row 0 ≠
      .ok (some (.datetime .midLeap)) := by
  intro row
  refine ⟨rfl, by rfl, ?_⟩
  rw [@eval_again (column "time") row 0 .midLeap rfl]
  intro same
  have settled := Value.datetime.inj (Option.some.inj (Except.ok.inj same))
  exact absurd (Datetime.settled_eq_self_iff.mp settled) (by decide)

end Expr

end Tableflow
