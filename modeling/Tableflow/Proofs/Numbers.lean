import Tableflow.Proofs.Documents
import Tableflow.Proofs.NumberOrder
import Tableflow.Table.Csv

/-!
The numbers that expressions and summaries give. Results of arithmetic are kept only if they are
finite; row numbers, counts and the parts of a datetime are kept as they are. So whatever is true of
finite numbers and of the counts is true of every result, if it is true of the numbers it is made of.
-/

namespace Tableflow

variable {Q : Float → Prop}

/-! ### Cells -/

def Number.IsFinite (x : Float) : Prop := x.isFinite = true

instance : DecidablePred Number.IsFinite := fun x => inferInstanceAs (Decidable (x.isFinite = true))

/-- If the cell is a number, the number has the property. -/
def Cell.Numbers (Q : Float → Prop) : Cell → Prop
  | some (.number x) => Q x
  | _ => True

instance [DecidablePred Q] : DecidablePred (Cell.Numbers Q)
  | some (.number x) => inferInstanceAs (Decidable (Q x))
  | none => .isTrue trivial
  | some (.logical _) => .isTrue trivial
  | some (.text _) => .isTrue trivial
  | some (.datetime _) => .isTrue trivial

theorem Cell.numbers_iff {cell : Cell} : cell.Numbers Q ↔ ∀ x, cell = some (.number x) → Q x := by
  match cell with
  | none => exact ⟨fun _ => nofun, fun _ => trivial⟩
  | some (.logical _) => exact ⟨fun _ => nofun, fun _ => trivial⟩
  | some (.number x) =>
    refine ⟨?_, fun holds => holds x rfl⟩
    rintro holds _ ⟨⟩
    exact holds
  | some (.text _) => exact ⟨fun _ => nofun, fun _ => trivial⟩
  | some (.datetime _) => exact ⟨fun _ => nofun, fun _ => trivial⟩

theorem Cell.numbers_of_forall (all : ∀ x, Q x) (cell : Cell) : cell.Numbers Q :=
  numbers_iff.mpr fun x _ => all x

theorem Cell.isFinite_of_numbers {cell : Cell} (numbers : cell.Numbers Number.IsFinite) :
    cell.IsFinite := numbers

theorem Cell.IsFinite.numbers {cell : Cell} (finite : cell.IsFinite)
    (admits : ∀ x, Number.IsFinite x → Q x) : cell.Numbers Q := by
  rw [numbers_iff]
  rintro x rfl
  exact admits x finite

theorem Cell.isFinite_finite (x : Float) : (Cell.finite x).IsFinite := by
  unfold Cell.finite
  split
  · assumption
  · trivial

theorem Cell.isFinite_toNumber (cell : Cell) : cell.toNumber.IsFinite := by
  match cell with
  | none => trivial
  | some (.logical b) => cases b <;> rfl
  | some (.number x) => exact isFinite_finite x
  | some (.text s) =>
    show (Number.ofText s).IsFinite
    unfold Number.ofText
    split
    · cases Number.read? (Text.trimChars s.toList) with
      | none => trivial
      | some x => exact isFinite_finite x
    · trivial
  | some (.datetime d) => exact isFinite_finite _

theorem Cell.isFinite_infer (field : String) : (Cell.infer field).IsFinite := by
  have chosen {a b : Cell} (first : a.IsFinite) (second : b.IsFinite) : Cell.IsFinite (a.or b) := by
    cases a with
    | none => exact second
    | some v => exact first
  unfold Cell.infer
  dsimp only
  split_ifs
  · trivial
  · trivial
  · trivial
  · exact chosen (isFinite_toNumber _) (chosen (isFinite_toDatetime _) trivial)

theorem Cell.isFinite_of_ofJson {json : Json} {cell : Cell} (read : Cell.ofJson json = .ok cell) :
    cell.IsFinite := by
  cases json with
  | null => cases read; trivial
  | bool b => cases read; trivial
  | string s => cases read; trivial
  | int n =>
    simp only [Cell.ofJson] at read
    split at read
    · cases read
      assumption
    · cases read
  | float x =>
    simp only [Cell.ofJson] at read
    split at read
    · cases read
      assumption
    · cases read
  | array items => cases read
  | object fields => cases read

/-- Missing, or a finite number. -/
def Cell.IsNumeric : Cell → Prop
  | none => True
  | some (.number x) => x.isFinite = true
  | _ => False

instance : DecidablePred Cell.IsNumeric
  | some (.number x) => inferInstanceAs (Decidable (x.isFinite = true))
  | none => .isTrue trivial
  | some (.logical _) => .isFalse id
  | some (.text _) => .isFalse id
  | some (.datetime _) => .isFalse id

theorem Cell.isNumeric_finite (x : Float) : (Cell.finite x).IsNumeric := by
  unfold Cell.finite
  split
  · assumption
  · trivial

/-! ### Expressions -/

namespace Expr

/-- The constants that are numbers have the property. -/
def Numbers (Q : Float → Prop) : Expr → Prop
  | constant cell => cell.Numbers Q
  | column _ => True
  | rowIndex => True
  | unary _ arg => arg.Numbers Q
  | binary _ left right => left.Numbers Q ∧ right.Numbers Q
  | ifElse condition yes no => condition.Numbers Q ∧ yes.Numbers Q ∧ no.Numbers Q

theorem numbers_of_forall (all : ∀ x, Q x) (e : Expr) : e.Numbers Q := by
  induction e with
  | constant cell => exact cell.numbers_of_forall all
  | column name => trivial
  | rowIndex => trivial
  | unary op arg ih => exact ih
  | binary op left right ihLeft ihRight => exact ⟨ihLeft, ihRight⟩
  | ifElse condition yes no ihCondition ihYes ihNo => exact ⟨ihCondition, ihYes, ihNo⟩

theorem WellFormed.numbers {e : Expr} (formed : e.WellFormed)
    (admits : ∀ x, Number.IsFinite x → Q x) : e.Numbers Q := by
  induction e with
  | constant cell => exact Cell.IsFinite.numbers (Cell.WellFormed.isFinite formed) admits
  | column name => trivial
  | rowIndex => trivial
  | unary op arg ih => exact ih formed
  | binary op left right ihLeft ihRight => exact ⟨ihLeft formed.1, ihRight formed.2⟩
  | ifElse condition yes no ihCondition ihYes ihNo =>
    exact ⟨ihCondition formed.1, ihYes formed.2.1, ihNo formed.2.2⟩

end Expr

theorem DatePart.natAbs_of_lt (d : Datetime) (part : DatePart) : (part.of d).natAbs < 2 ^ 64 := by
  have years := d.date.inYears
  have months := d.date.inMonths
  have days : d.date.day ≤ 31 := by
    refine d.date.inDays.2.trans ?_
    unfold daysInMonth
    split_ifs <;> omega
  have times := d.inDay
  cases part <;> simp only [DatePart.of, Date.weekday] <;> omega

/-- Whatever number an operator makes is finite. -/
theorem UnaryOp.isFinite_apply {op : UnaryOp} {cell result : Cell}
    (applied : op.apply cell = .ok result) : result.IsFinite := by
  cases op with
  | negate =>
    obtain ⟨_, applied⟩ := guarded_eq_ok.mp applied
    split at applied <;> obtain rfl := pure_eq_ok.mp applied
    · exact Cell.isFinite_finite _
    · trivial
  | not =>
    obtain ⟨_, applied⟩ := guarded_eq_ok.mp applied
    obtain rfl := pure_eq_ok.mp applied
    cases cell <;> trivial
  | hasKind kind =>
    obtain rfl := pure_eq_ok.mp applied
    cases cell <;> trivial
  | isMissing =>
    obtain rfl := pure_eq_ok.mp applied
    trivial
  | convert kind =>
    cases kind with
    | logical =>
      obtain rfl := pure_eq_ok.mp applied
      cases cell <;> trivial
    | number =>
      obtain rfl := pure_eq_ok.mp applied
      exact cell.isFinite_toNumber
    | text =>
      obtain rfl := pure_eq_ok.mp applied
      cases cell <;> trivial
    | datetime =>
      obtain rfl := pure_eq_ok.mp applied
      exact cell.isFinite_toDatetime
  | part piece =>
    obtain ⟨_, applied⟩ := guarded_eq_ok.mp applied
    split at applied <;> obtain rfl := pure_eq_ok.mp applied
    · exact Number.isFinite_whole (DatePart.natAbs_of_lt _ _)
    · trivial

namespace Row

/-- All numbers of the row have the property. -/
def Numbers (Q : Float → Prop) (row : Row) : Prop := ∀ entry ∈ row.entries, entry.2.Numbers Q

instance [DecidablePred Q] : DecidablePred (Row.Numbers Q) := fun row =>
  inferInstanceAs (Decidable (∀ entry ∈ row.entries, entry.2.Numbers Q))

theorem Numbers.get? {row : Row} (numbers : row.Numbers Q) {name : String} {cell : Cell}
    (found : row.get? name = some cell) : cell.Numbers Q :=
  numbers _ (OrderedMap.get?_eq_some_iff.mp found)

theorem Numbers.cell {row : Row} (numbers : row.Numbers Q) (name : String) :
    (row.cell name).Numbers Q := by
  unfold Row.cell
  cases found : row.get? name with
  | none => trivial
  | some cell => exact numbers.get? found

theorem Numbers.insert {row : Row} (numbers : row.Numbers Q) {name : String} {cell : Cell}
    (new : cell.Numbers Q) : Row.Numbers Q (row.insert name cell) := by
  intro entry member
  rcases OrderedMap.mem_of_mem_place member with rfl | old
  · exact new
  · exact numbers entry old

theorem Numbers.foldl_erase {row : Row} (numbers : row.Numbers Q) (names : List String) :
    Row.Numbers Q (names.foldl OrderedMap.erase row) := by
  induction names generalizing row with
  | nil => exact numbers
  | cons name rest ih => exact ih fun entry member => numbers entry (List.mem_filter.mp member).1

theorem numbers_ofList {entries : List (String × Cell)}
    (numbers : ∀ entry ∈ entries, entry.2.Numbers Q) : Row.Numbers Q (OrderedMap.ofList entries) :=
  fun entry member => numbers entry (OrderedMap.mem_of_mem_ofList member)

end Row

theorem Expr.numbers_eval (admits : ∀ x, Number.IsFinite x → Q x) {row : Row}
    (numbers : row.Numbers Q) {index : Nat} (counted : Q (Number.ofNat index)) {e : Expr}
    (constants : e.Numbers Q) {cell : Cell} (evaluated : e.eval row index = .ok cell) :
    cell.Numbers Q := by
  induction e generalizing cell with
  | constant fixed =>
    obtain rfl := Except.ok.inj evaluated
    exact constants
  | column name =>
    unfold eval at evaluated
    split at evaluated
    · rename_i found
      obtain rfl := Except.ok.inj evaluated
      exact numbers.get? found
    · cases evaluated
  | rowIndex =>
    obtain rfl := Except.ok.inj evaluated
    exact counted
  | unary op arg ih =>
    obtain ⟨operand, _, applied⟩ := bind_eq_ok.mp evaluated
    exact (UnaryOp.isFinite_apply applied).numbers admits
  | binary op left right ihLeft ihRight =>
    cases op with
    | arithmetic op =>
      obtain ⟨a, _, evaluated⟩ := bind_eq_ok.mp evaluated
      obtain ⟨_, evaluated⟩ := guarded_eq_ok.mp evaluated
      obtain ⟨b, _, evaluated⟩ := bind_eq_ok.mp evaluated
      obtain ⟨_, evaluated⟩ := guarded_eq_ok.mp evaluated
      split at evaluated <;> obtain rfl := pure_eq_ok.mp evaluated
      · exact (Cell.isFinite_finite _).numbers admits
      · trivial
    | comparison op =>
      obtain ⟨a, _, evaluated⟩ := bind_eq_ok.mp evaluated
      obtain ⟨b, _, evaluated⟩ := bind_eq_ok.mp evaluated
      obtain ⟨_, evaluated⟩ := guarded_eq_ok.mp evaluated
      split at evaluated
      · obtain ⟨_, _, evaluated⟩ := bind_eq_ok.mp evaluated
        obtain rfl := pure_eq_ok.mp evaluated
        trivial
      · obtain rfl := pure_eq_ok.mp evaluated
        trivial
    | and =>
      obtain ⟨a, first, evaluated⟩ := bind_eq_ok.mp evaluated
      split at evaluated
      · exact ihRight constants.2 evaluated
      · obtain rfl := pure_eq_ok.mp evaluated
        exact ihLeft constants.1 first
    | or =>
      obtain ⟨a, first, evaluated⟩ := bind_eq_ok.mp evaluated
      split at evaluated
      · obtain rfl := pure_eq_ok.mp evaluated
        exact ihLeft constants.1 first
      · exact ihRight constants.2 evaluated
  | ifElse condition yes no ihCondition ihYes ihNo =>
    obtain ⟨chosen, _, evaluated⟩ := bind_eq_ok.mp evaluated
    split at evaluated
    · obtain rfl := pure_eq_ok.mp evaluated
      trivial
    · split at evaluated
      · exact ihYes constants.2.1 evaluated
      · exact ihNo constants.2.2 evaluated

/-! ### Summaries -/

namespace Summary

theorem mem_of_extreme {operation : String} {wanted : Ordering} {best result : Value}
    {values : List Value} (found : extreme operation wanted best values = .ok result) :
    result ∈ best :: values := by
  induction values generalizing best with
  | nil =>
    obtain rfl := Except.ok.inj found
    exact List.mem_cons_self
  | cons v rest ih =>
    unfold extreme at found
    split at found
    · cases found
    · have later := ih found
      split at later <;> simp only [List.mem_cons] at later ⊢ <;> tauto

/-- A reduction gives a count, one of the cells, or the result of arithmetic. -/
theorem reduce_cases {s : Summary} {cells : List Cell} {result : Cell}
    (reduced : s.reduce cells = .ok result) :
    result = none ∨ (∃ n ≤ cells.length, result = some (.number (Number.ofNat n))) ∨
      result ∈ cells ∨ ∃ x, result = Cell.finite x := by
  unfold reduce at reduced
  split at reduced
  · exact .inl (Except.ok.inj reduced).symm
  · rename_i first rest present
    have ofNumbers (f : List Float → Float)
        (made : (numbers s.name (first :: rest)).map (fun xs => Cell.finite (f xs)) = .ok result) :
        ∃ x, result = Cell.finite x := by
      obtain ⟨xs, _, rfl⟩ := map_eq_ok.mp made
      exact ⟨f xs, rfl⟩
    have ofExtreme (wanted : Ordering)
        (made : (extreme s.name wanted first rest).map some = .ok result) : result ∈ cells := by
      obtain ⟨v, found, rfl⟩ := map_eq_ok.mp made
      have member := mem_of_extreme found
      rw [← present, List.mem_filterMap] at member
      obtain ⟨cell, here, rfl⟩ := member
      exact here
    cases s with
    | count =>
      have fewer : (first :: rest).length ≤ cells.length := present ▸ List.length_filterMap_le _ _
      exact .inr (.inl ⟨_, fewer, (Except.ok.inj reduced).symm⟩)
    | maximum => exact .inr (.inr (.inl (ofExtreme .gt reduced)))
    | minimum => exact .inr (.inr (.inl (ofExtreme .lt reduced)))
    | sum => exact .inr (.inr (.inr (ofNumbers total reduced)))
    | mean => exact .inr (.inr (.inr (ofNumbers average reduced)))
    | median => exact .inr (.inr (.inr (ofNumbers middle reduced)))
    | variance => exact .inr (.inr (.inr (ofNumbers spread reduced)))
    | stdDev => exact .inr (.inr (.inr (ofNumbers (fun xs => (spread xs).sqrt) reduced)))

theorem numbers_reduce (admits : ∀ x, Number.IsFinite x → Q x) {s : Summary} {cells : List Cell}
    (numbers : ∀ cell ∈ cells, cell.Numbers Q) (counted : ∀ n ≤ cells.length, Q (Number.ofNat n))
    {result : Cell} (reduced : s.reduce cells = .ok result) : result.Numbers Q := by
  rcases reduce_cases reduced with rfl | ⟨n, fewer, rfl⟩ | member | ⟨x, rfl⟩
  · trivial
  · exact counted n fewer
  · exact numbers result member
  · exact (Cell.isFinite_finite x).numbers admits

theorem exists_numbers (operation : String) {values : List Value}
    (numeric : ∀ v ∈ values, Cell.IsNumeric (some v)) : ∃ xs, numbers operation values = .ok xs := by
  apply exists_mapM
  intro v member
  have number := numeric v member
  cases v with
  | number x => exact ⟨x, rfl⟩
  | _ => exact number.elim

theorem exists_extreme (operation : String) (wanted : Ordering) {best : Value} {values : List Value}
    (numeric : ∀ v ∈ best :: values, Cell.IsNumeric (some v)) :
    ∃ v, extreme operation wanted best values = .ok v := by
  induction values generalizing best with
  | nil => exact ⟨best, rfl⟩
  | cons v rest ih =>
    simp only [List.forall_mem_cons] at numeric
    obtain ⟨first, second, later⟩ := numeric
    obtain ⟨order, compared⟩ : ∃ order, v.compare? best = some order := by
      cases best with
      | number y =>
        cases v with
        | number x =>
          exact ⟨_, Number.compare?_eq (Number.ne_nan_of_isFinite second)
            (Number.ne_nan_of_isFinite first)⟩
        | _ => exact second.elim
      | _ => exact first.elim
    rw [extreme, compared]
    apply ih
    rw [List.forall_mem_cons]
    exact ⟨by split <;> assumption, later⟩

/-- Finite numbers and missing cells are reduced to a finite number or to a missing cell. -/
theorem exists_reduce (s : Summary) {cells : List Cell} (numeric : ∀ cell ∈ cells, cell.IsNumeric)
    (counted : ∀ n ≤ cells.length, Number.IsFinite (Number.ofNat n)) :
    ∃ result, s.reduce cells = .ok result ∧ result.IsNumeric := by
  have returns : ∃ result, s.reduce cells = .ok result := by
    unfold reduce
    split
    · exact ⟨none, rfl⟩
    · rename_i first rest present
      have values : ∀ v ∈ first :: rest, Cell.IsNumeric (some v) := by
        intro v member
        rw [← present, List.mem_filterMap] at member
        obtain ⟨cell, here, rfl⟩ := member
        exact numeric _ here
      obtain ⟨xs, listed⟩ := exists_numbers s.name values
      obtain ⟨greatest, above⟩ := exists_extreme s.name .gt values
      obtain ⟨least, below⟩ := exists_extreme s.name .lt values
      cases s with
      | count => exact ⟨_, rfl⟩
      | maximum => exact ⟨_, map_eq_ok.mpr ⟨_, above, rfl⟩⟩
      | minimum => exact ⟨_, map_eq_ok.mpr ⟨_, below, rfl⟩⟩
      | _ => exact ⟨_, map_eq_ok.mpr ⟨_, listed, rfl⟩⟩
  obtain ⟨result, reduced⟩ := returns
  refine ⟨result, reduced, ?_⟩
  rcases reduce_cases reduced with rfl | ⟨n, fewer, rfl⟩ | member | ⟨x, rfl⟩
  · trivial
  · exact counted n fewer
  · exact numeric result member
  · exact Cell.isNumeric_finite x

end Summary

end Tableflow
