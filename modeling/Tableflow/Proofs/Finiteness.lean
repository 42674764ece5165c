import Tableflow.Proofs.Numbers
import Tableflow.Proofs.RoundTrip
import Tableflow.Proofs.Shape

/-!
Numbers in tables. What is true of finite numbers and of the counts of a run is true of every number
that the run stores. Finite numbers themselves are the main case: nothing else is ever stored.
-/

namespace Tableflow

variable {Q : Float → Prop}

namespace Table

variable {t made : Table} {c : Context} {columns names : List String} {rows : List Row}
  {group : Option (List String)}

/-- All numbers in the rows and in the keys of groups have the property. -/
structure Numbers (Q : Float → Prop) (t : Table) : Prop where
  rows : ∀ row ∈ t.rows, row.Numbers Q
  keys : ∀ member ∈ t.members, ∀ cell ∈ member.1, cell.Numbers Q

/-- The numbers of rows and the sizes of groups have the property. -/
structure Counts (Q : Float → Prop) (t : Table) : Prop where
  indices : ∀ index < t.rows.length, Q (Number.ofNat index)
  sizes : ∀ member ∈ t.members, ∀ n ≤ member.2.length, Q (Number.ofNat n)

theorem numbers_ungrouped (numbers : ∀ row ∈ rows, row.Numbers Q) :
    Numbers Q ⟨columns, rows, none⟩ := by
  refine ⟨numbers, ?_⟩
  intro member known
  obtain rfl := List.mem_singleton.mp known
  simp

theorem numbers_ofParts (numbers : ∀ row ∈ rows, row.Numbers Q) :
    (ofParts columns rows group).Numbers Q := by
  cases group with
  | none => exact numbers_ungrouped numbers
  | some names =>
    refine ⟨numbers, ?_⟩
    intro member known cell here
    obtain ⟨part, listed, rfl⟩ := List.mem_map.mp known
    obtain ⟨number, row, _, found, kept⟩ := (Grouping.partitions_build rows names).key part listed
    rw [kept] at here
    obtain ⟨name, _, rfl⟩ := List.mem_map.mp here
    exact (numbers row (List.mem_of_getElem? found)).cell name

theorem Numbers.of_subset (numbers : t.Numbers Q) (subset : rows ⊆ t.rows) :
    (ofParts columns rows group).Numbers Q :=
  numbers_ofParts fun row member => numbers.rows row (subset member)

theorem numbers_arrange {row : Row} (numbers : row.Numbers Q) (columns : List String) :
    Row.Numbers Q (arrange columns row) := by
  apply Row.numbers_ofList
  intro entry member
  obtain ⟨name, _, rfl⟩ := List.mem_map.mp member
  exact numbers.cell name

/-! ### Tables from outside -/

theorem numbers_of_ungrouped (ungrouped : t.grouping = none)
    (numbers : ∀ row ∈ t.rows, row.Numbers Q) : t.Numbers Q := by
  obtain ⟨columns, rows, _⟩ := t
  obtain rfl := ungrouped
  exact numbers_ungrouped numbers

theorem numbers_of_entriesOfJson (admits : ∀ x, Number.IsFinite x → Q x)
    {fields : List (String × Json)} {entries : List (String × Cell)}
    (read : entriesOfJson fields = .ok entries) : ∀ entry ∈ entries, entry.2.Numbers Q := by
  induction fields generalizing entries with
  | nil =>
    obtain rfl := Except.ok.inj read
    simp
  | cons field rest ih =>
    unfold entriesOfJson at read
    split at read
    · cases read
    · rename_i cell first
      obtain ⟨others, later, rfl⟩ := map_eq_ok.mp read
      rw [List.forall_mem_cons]
      exact ⟨(Cell.isFinite_of_ofJson first).numbers admits, ih later⟩

theorem numbers_of_rowsOfJson (admits : ∀ x, Number.IsFinite x → Q x) {index : Nat}
    {items : List Json} (read : rowsOfJson index items = .ok rows) : ∀ row ∈ rows, row.Numbers Q := by
  induction items generalizing index rows with
  | nil =>
    obtain rfl := Except.ok.inj read
    simp
  | cons json rest ih =>
    obtain ⟨row, first, read⟩ := bind_eq_ok.mp read
    obtain ⟨others, later, read⟩ := bind_eq_ok.mp read
    obtain rfl := pure_eq_ok.mp read
    rw [List.forall_mem_cons]
    refine ⟨?_, ih later⟩
    have first := under_eq_ok.mp first
    cases json with
    | object fields =>
      obtain ⟨entries, listed, rfl⟩ := map_eq_ok.mp first
      exact Row.numbers_ofList (numbers_of_entriesOfJson admits listed)
    | _ => cases first

theorem numbers_of_ofJson (admits : ∀ x, Number.IsFinite x → Q x) {json : Json}
    (read : ofJson json = .ok t) : t.Numbers Q := by
  obtain ⟨items, rows, _, listed, made⟩ := rows_of_ofJson read
  refine numbers_of_ungrouped (ungrouped_of_ofJson read) fun row member => ?_
  obtain ⟨before, here, rfl⟩ := (rows_of_ofRows made).2 row member
  exact numbers_arrange (numbers_of_rowsOfJson admits listed before here) _

theorem numbers_of_rowOfCsv (admits : ∀ x, Number.IsFinite x → Q x) {number : Nat}
    {record : Csv.Record} {row : Row} (read : rowOfCsv columns number record = .ok row) :
    row.Numbers Q := by
  unfold rowOfCsv at read
  split at read
  · split at read
    · cases read
      apply Row.numbers_ofList
      intro entry member
      obtain ⟨field, _, same⟩ := List.mem_map.mp (List.of_mem_zip member).2
      rw [← same]
      exact (Cell.isFinite_infer field).numbers admits
    · cases read
  · cases read

theorem numbers_of_ofCsv (admits : ∀ x, Number.IsFinite x → Q x) {bytes : ByteArray}
    (read : ofCsv bytes = .ok t) : t.Numbers Q := by
  obtain ⟨ungrouped, made⟩ := rows_of_ofCsv read
  refine numbers_of_ungrouped ungrouped fun row member => ?_
  obtain ⟨_, _, made⟩ := made row member
  exact numbers_of_rowOfCsv admits made

/-! ### Stages -/

theorem exists_of_mem_evalFrom {e : Expr} {start : Nat} {cells : List Cell}
    (evaluated : evalFrom e start rows = .ok cells) {cell : Cell} (member : cell ∈ cells) :
    ∃ row ∈ rows, ∃ index < start + rows.length, e.eval row index = .ok cell := by
  induction rows generalizing start cells with
  | nil =>
    obtain rfl := Except.ok.inj evaluated
    cases member
  | cons row rest ih =>
    obtain ⟨first, here, evaluated⟩ := bind_eq_ok.mp evaluated
    obtain ⟨others, later, evaluated⟩ := bind_eq_ok.mp evaluated
    obtain rfl := pure_eq_ok.mp evaluated
    rcases List.mem_cons.mp member with rfl | member
    · exact ⟨row, List.mem_cons_self, start, by simp, here⟩
    · obtain ⟨other, there, index, below, found⟩ := ih later member
      refine ⟨other, List.mem_cons_of_mem _ there, index, ?_, found⟩
      rw [List.length_cons]
      omega

theorem numbers_evaluate (admits : ∀ x, Number.IsFinite x → Q x) (numbers : t.Numbers Q)
    (counts : t.Counts Q) {e : Expr} (constants : e.Numbers Q) {cells : List Cell}
    (evaluated : t.evaluate e = .ok cells) : ∀ cell ∈ cells, cell.Numbers Q := by
  intro cell member
  obtain ⟨_, evaluated⟩ := guarded_eq_ok.mp evaluated
  obtain ⟨row, here, index, below, found⟩ :=
    exists_of_mem_evalFrom (mapError_eq_ok.mp evaluated) member
  rw [Nat.zero_add] at below
  exact Expr.numbers_eval admits (numbers.rows row here) (counts.indices index below) constants found

theorem numbers_of_mutate (admits : ∀ x, Number.IsFinite x → Q x) (numbers : t.Numbers Q)
    (counts : t.Counts Q) {column : String} {e : Expr} (constants : e.Numbers Q)
    (ended : t.mutate column e = .ok made) : made.Numbers Q := by
  obtain ⟨cells, evaluated, rfl⟩ := mutate_eq_ok.mp ended
  apply numbers_ofParts
  intro row member
  rw [← List.map_uncurry_zip_eq_zipWith, List.mem_map] at member
  obtain ⟨⟨before, cell⟩, paired, rfl⟩ := member
  obtain ⟨here, there⟩ := List.of_mem_zip paired
  exact (numbers.rows before here).insert
    (numbers_evaluate admits numbers counts constants evaluated cell there)

theorem numbers_of_summarize (admits : ∀ x, Number.IsFinite x → Q x)
    (numbers : t.Numbers Q) (counts : t.Counts Q) {s : Summary} {column : String}
    (ended : t.summarize s column = .ok made) : made.Numbers Q := by
  obtain ⟨_, rows, rfl, reduced⟩ := rows_of_summarize ended
  apply numbers_ofParts
  intro row member
  obtain ⟨part, known, picked, result, size, found, ended, rfl⟩ := reduced row member
  have keys : ∀ entry ∈ (t.groupColumns.getD []).zip part.1, entry.2.Numbers Q :=
    fun entry here => numbers.keys part known _ (List.of_mem_zip here).2
  apply (Row.numbers_ofList keys).insert
  have sizes : ∀ n ≤ picked.length, Q (Number.ofNat n) := fun n fewer =>
    counts.sizes part known n (size ▸ fewer)
  refine Summary.numbers_reduce admits ?_ sizes ended
  intro cell here
  obtain ⟨row, there, found⟩ := found cell here
  exact (numbers.rows row there).get? found

theorem mem_of_keyedRows {column : String} {keyed : List (Cell × Row)}
    (paired : t.keyedRows column = .ok keyed) {pair : Cell × Row} (member : pair ∈ keyed) :
    pair.2 ∈ t.rows ∧ pair.2.get? column = some pair.1 := by
  obtain ⟨row, here, found⟩ := exists_of_mem_mapM paired member
  obtain ⟨cell, present, found⟩ := bind_eq_ok.mp found
  obtain rfl := pure_eq_ok.mp found
  refine ⟨here, ?_⟩
  unfold presentCell at present
  split at present
  · rename_i there
    rw [there, Except.ok.inj present]
  · cases present

theorem numbers_joinRow {leftName rightName : String} {key : Cell} {left right : Row}
    (new : key.Numbers Q) (numbers : left.Numbers Q) (numbers' : right.Numbers Q) :
    Row.Numbers Q (joinRow leftName rightName key left right) := by
  apply Row.numbers_ofList
  intro entry member
  simp only [List.cons_append, List.mem_cons, List.mem_append, List.mem_map] at member
  rcases member with rfl | ⟨old, here, rfl⟩ | ⟨old, here, rfl⟩
  · exact new
  · exact numbers old here
  · exact numbers' old here

theorem numbers_of_join (tables : c.Holds (Numbers Q))
    {leftName leftColumn rightName rightColumn : String}
    (ended : join c leftName leftColumn rightName rightColumn = .ok made) : made.Numbers Q := by
  obtain ⟨_, left, right, found, found', _, _, _, keyedLeft, keyedRight, paired, paired', rfl⟩ :=
    tables_of_join ended
  apply numbers_ofParts
  intro row member
  obtain ⟨first, here, second, there, rfl⟩ := exists_of_mem_joinRows member
  obtain ⟨here, key⟩ := mem_of_keyedRows paired here
  obtain ⟨there, _⟩ := mem_of_keyedRows paired' there
  have numbers : Row.Numbers Q first.2 := (tables _ _ found).rows _ here
  exact numbers_joinRow (numbers.get? key) numbers ((tables _ _ found').rows _ there)

/-- A stage that is read from a document stores no numbers of other kinds. -/
theorem keeps_numbers (admits : ∀ x, Number.IsFinite x → Q x) {step : Step}
    (formed : step.stage.WellFormed) (counts : step.input.Counts Q) : step.Keeps (Numbers Q) := by
  obtain ⟨c, stage, input⟩ := step
  intro tables numbers output applied
  cases stage with
  | drop columns =>
    obtain ⟨_, rfl⟩ := dropColumns_eq_ok.mp applied
    apply numbers_ofParts
    intro row member
    obtain ⟨before, here, rfl⟩ := List.mem_map.mp member
    exact (numbers.rows before here).foldl_erase columns
  | filter e =>
    obtain ⟨rows, subset, rfl⟩ := rows_of_filter applied
    exact numbers.of_subset subset
  | groupBy columns =>
    obtain ⟨_, rfl⟩ := groupBy_eq_ok.mp (mapError_eq_ok.mp applied)
    exact numbers_ofParts numbers.rows
  | join leftTable leftColumn rightTable rightColumn => exact numbers_of_join tables applied
  | mutate column e =>
    exact numbers_of_mutate admits numbers counts (Expr.WellFormed.numbers formed.2 admits) applied
  | notify signal =>
    obtain rfl := Except.ok.inj applied
    exact numbers
  | read source => exact tables source output (load_eq_ok.mp applied)
  | select columns =>
    obtain ⟨_, rfl⟩ := select_eq_ok.mp applied
    apply numbers_ofParts
    intro row member
    obtain ⟨before, here, rfl⟩ := List.mem_map.mp member
    exact numbers_arrange (numbers.rows before here) _
  | sort columns descending =>
    obtain ⟨_, rows, same, rfl⟩ := perm_of_sort applied
    exact numbers.of_subset same.subset
  | summarize summary column => exact numbers_of_summarize admits numbers counts applied
  | ungroup =>
    obtain rfl := Except.ok.inj applied
    exact numbers_ungrouped numbers.rows
  | unique columns =>
    obtain ⟨_, rfl⟩ := unique_eq_ok.mp applied
    exact numbers.of_subset (firstRows_sublist _ _ _).subset

/-! ### Runs -/

/-- A fresh grouping has row numbers only, and each of them once. -/
theorem rows_of_mem_members (fresh : t.Fresh) {member : List Cell × List Nat}
    (known : member ∈ t.members) : member.2.Nodup ∧ ∀ number ∈ member.2, number < t.rows.length := by
  unfold members at known
  split at known
  · rename_i grouping grouped
    obtain ⟨part, here, rfl⟩ := List.mem_map.mp known
    have partition := Grouping.partitions_iff.mpr (fresh grouping grouped).2
    exact ⟨(partition.ascending part here).imp Nat.ne_of_lt, fun number member =>
      (partition.covers number).mp ⟨part, here, member⟩⟩
  · obtain rfl := List.mem_singleton.mp known
    exact ⟨List.nodup_range, fun number => List.mem_range.mp⟩

theorem counts_of_small (fresh : t.Fresh) (small : t.rows.length < 2 ^ 64) :
    t.Counts Number.IsFinite := by
  have finite {n : Nat} (fewer : n ≤ t.rows.length) : Number.IsFinite (Number.ofNat n) :=
    Number.isFinite_whole (fewer.trans_lt small)
  refine ⟨fun index below => finite below.le, ?_⟩
  intro member known n fewer
  obtain ⟨distinct, bounded⟩ := rows_of_mem_members fresh known
  have size : member.2.length ≤ t.rows.length := by
    have listed : member.2 ⊆ List.range t.rows.length := fun number here =>
      List.mem_range.mpr (bounded number here)
    simpa using (distinct.subperm listed).length_le
  exact finite (fewer.trans size)

/-- The steps of a run can count the rows if there are fewer than `2^64`. -/
theorem counts_of_small_steps {p : Program} (holds : c.Holds Fresh)
    (small : ∀ step ∈ p.steps c, step.input.rows.length < 2 ^ 64) :
    ∀ step ∈ p.steps c, step.input.Counts Number.IsFinite := by
  have keeps : ∀ step ∈ p.steps c, step.Keeps Fresh := fun step _ holds fresh output applied =>
    keeps_fresh step.stage step.seen step.input output holds fresh applied
  obtain ⟨met, _⟩ := Program.holds_steps (fresh_of_ungrouped rfl) holds keeps
  exact fun step member => counts_of_small (met step member).2 (small step member)

theorem formed_of_mem_steps {json : Json} {p : Program} (accepted : Program.ofJson json = .ok p)
    {step : Step} (member : step ∈ p.steps c) : step.stage.WellFormed := by
  obtain ⟨name, pipeline, defined, listed⟩ := Program.stage_of_mem_steps member
  have valued : pipeline ∈ p.pipelines.values :=
    List.mem_map.mpr ⟨_, OrderedMap.get?_eq_some_iff.mp defined, rfl⟩
  exact Program.wellFormed_of_ofJson accepted pipeline valued step.stage listed

/-- No number is stored that is not finite. Expressions with finite constants, in rows with finite
numbers, give missing cells, finite numbers or other kinds of values; finite numbers are reduced to a
finite number or to nothing; and the tables that are read from outside have finite numbers, so all
tables that the runs of a program from a document meet, publish and end with have. Row numbers and
sizes of groups must not be too large to count. -/
theorem numbers_stay_finite :
    (∀ (e : Expr) (row : Row) (index : Nat) (cell : Cell),
      e.Numbers Number.IsFinite → row.Numbers Number.IsFinite →
      Number.IsFinite (Number.ofNat index) → e.eval row index = .ok cell → cell.IsFinite) ∧
    (∀ (s : Summary) (cells : List Cell), (∀ cell ∈ cells, cell.IsNumeric) →
      (∀ n ≤ cells.length, Number.IsFinite (Number.ofNat n)) →
      ∃ result, s.reduce cells = .ok result ∧ result.IsNumeric) ∧
    (∀ (json : Json) (t : Table), ofJson json = .ok t → t.Numbers Number.IsFinite) ∧
    (∀ (bytes : ByteArray) (t : Table), ofCsv bytes = .ok t → t.Numbers Number.IsFinite) ∧
    ∀ (json : Json) (p : Program) (c : Context), Program.ofJson json = .ok p →
      c.Holds (Numbers Number.IsFinite) →
      (∀ step ∈ p.steps c, step.input.Counts Number.IsFinite) →
      (∀ step ∈ p.steps c, step.input.Numbers Number.IsFinite ∧
        ∀ output, step.result = .ok output → output.Numbers Number.IsFinite) ∧
      (p.run c).value.2.Holds (Numbers Number.IsFinite) ∧
      ∀ report, (p.run c).value.1 = .ok report → ∀ name table,
        report.get? name = some (.succeeded table) → table.Numbers Number.IsFinite := by
  have admits : ∀ x, Number.IsFinite x → Number.IsFinite x := fun _ => id
  refine ⟨?_, fun s _ => s.exists_reduce, fun _ _ => numbers_of_ofJson admits,
    fun _ _ => numbers_of_ofCsv admits, ?_⟩
  · intro e row index cell constants numbers counted evaluated
    exact Cell.isFinite_of_numbers (Expr.numbers_eval admits numbers counted constants evaluated)
  · intro json p c accepted holds counts
    have keeps : ∀ step ∈ p.steps c, step.Keeps (Numbers Number.IsFinite) := fun step member =>
      keeps_numbers admits (formed_of_mem_steps accepted member) (counts step member)
    obtain ⟨met, ended⟩ := Program.holds_steps (numbers_ungrouped (by simp)) holds keeps
    refine ⟨?_, ended⟩
    intro step member
    obtain ⟨tables, numbers⟩ := met step member
    exact ⟨numbers, keeps step member tables numbers⟩

/-- The price of one item. -/
def unitPrice : Expr := .binary (.arithmetic .divide) (.column "cost") (.column "items")

def pricing : Program :=
  ⟨.ofList [("price", ⟨[.read "orders", .mutate "price" unitPrice, .mutate "row" .rowIndex,
      .notify "prices"]⟩),
    ("highest", ⟨[.read "prices", .summarize .maximum "price"]⟩)]⟩

/-- Two orders, one of them without items, so that it has no price. -/
def ordersJson : Json :=
  .array [.object [("cost", .int 6), ("items", .int 0)], .object [("cost", .int 6), ("items", .int 3)]]

def ordersCsv : ByteArray := "cost,items\n6,0\n6,3\n".toUTF8

def emptyOrder : Row := .ofList [("cost", some (.number 6)), ("items", some (.number 0))]

theorem numbers_stay_finite_pricing :
    ∃ t other report final table cell result, ofJson ordersJson = .ok t ∧
      ofCsv ordersCsv = .ok other ∧ other.Numbers Number.IsFinite ∧
      Program.ofJson pricing.toJson = .ok pricing ∧
      (pricing.run (Context.empty.addSource "orders" t)).value = (.ok report, final) ∧
      report.get? "price" = some (.succeeded table) ∧
      (table.rows.map fun row => (row.cell "price").isSome) = [false, true] ∧
      table.Numbers Number.IsFinite ∧ final.Holds (Numbers Number.IsFinite) ∧
      unitPrice.eval emptyOrder 0 = .ok cell ∧ cell.IsFinite ∧
      Summary.mean.reduce [some (.number 6), none] = .ok result ∧
      result.IsNumeric := by
  obtain ⟨evaluated, reduced, json, csv, runs⟩ := numbers_stay_finite
  have accepted : Program.ofJson pricing.toJson = .ok pricing :=
    Program.ofJson_toJson (p := pricing) (by decide)
  obtain ⟨t, read⟩ : ∃ t, ofJson ordersJson = .ok t := ⟨_, rfl⟩
  obtain ⟨other, readCsv⟩ : ∃ t, ofCsv ordersCsv = .ok t := ⟨_, rfl⟩
  have fresh : (Context.empty.addSource "orders" t).Holds Fresh :=
    Context.holds_empty.addSource (fresh_of_ungrouped (ungrouped_of_ofJson read))
  have finite : (Context.empty.addSource "orders" t).Holds (Numbers Number.IsFinite) :=
    Context.holds_empty.addSource (json _ _ read)
  have counts : ∀ step ∈ pricing.steps (Context.empty.addSource "orders" t),
      step.input.Counts Number.IsFinite := by
    apply counts_of_small_steps fresh
    intro step member
    have size := List.mem_map_of_mem (f := fun step : Step => step.input.rows.length) member
    obtain rfl := Except.ok.inj read
    change step.input.rows.length ∈ [0, 2, 2, 2, 0, 2] at size
    simp only [List.mem_cons, List.not_mem_nil, or_false] at size
    omega
  obtain ⟨_, final, ended⟩ := runs _ pricing _ accepted finite counts
  obtain ⟨result, mean, numeric⟩ := reduced .mean [some (.number 6), none] (by decide) (by decide)
  obtain rfl := Except.ok.inj read
  refine ⟨_, other, _, _, _, _, result, rfl, readCsv, csv _ _ readCsv, accepted, rfl, rfl, rfl,
    ended _ rfl "price" _ rfl, final, rfl, ?_, mean, numeric⟩
  exact evaluated unitPrice emptyOrder 0 _ ⟨trivial, trivial⟩ (by decide) (by decide) rfl

end Table

end Tableflow
