import Tableflow.Proofs.DatetimeText
import Tableflow.Proofs.Documents
import Tableflow.Proofs.Exact

/-!
Documents are read back as what was written. Only the sign of a zero is lost: integers have one
zero. So what comes back equals what was written, since zeros of both signs are equal.
-/

namespace Tableflow

/-! ### Constants -/

namespace Number

variable {x : Float}

theorem number?_numberToJson (finite : x.isFinite = true) :
    (Cell.numberToJson x).number? = some (unsigned x) := by
  have plain (other : toInt? x ≠ some 0) : unsigned x = x := by
    obtain ⟨d, decoded⟩ := exists_decode finite
    rw [unsigned_eq decoded, if_neg]
    intro zero
    apply other
    simp only [toInt?, decoded, zero, Nat.zero_mul, Nat.zero_mod, if_true, Nat.zero_div]
    cases d.negative <;> rfl
  unfold Cell.numberToJson
  split
  · rename_i n integer
    split
    · rw [Json.number?, ofInt_of_toInt? integer]
    · rename_i large
      have other : n ≠ 0 := by
        rintro rfl
        exact large (by decide)
      rw [Json.number?, plain (by simpa [integer] using other)]
  · rename_i broken
    rw [if_pos finite, Json.number?, plain (by simp [broken])]

end Number

namespace Cell

/-- The cell, a zero without its sign. -/
def unsigned : Cell → Cell
  | some (.number x) => some (.number (Number.unsigned x))
  | cell => cell

theorem unsigned_beq {cell : Cell} (finite : cell.IsFinite) : (cell.unsigned == cell) = true := by
  cases cell with
  | none => rfl
  | some v =>
    cases v with
    | logical b => exact beq_self_eq_true b
    | number x => exact Number.unsigned_beq finite
    | text s => exact beq_self_eq_true s
    | datetime d => exact beq_self_eq_true d

end Cell

/-! ### Nodes -/

namespace Node

/-- The node has a family, a name and fields under their keys. -/
structure Holds {whole : Json} (node : Node whole) (family name : String)
    (fields : List (String × Json)) : Prop where
  family : node.family = family
  name : node.name = name
  get? : ∀ key position part, fields.lookup key = some part →
    key ∉ ["family", "kind", "species"] → node.fields.get? key position = some part

theorem ofJson_object {fields : List (String × Json)} {family name : String}
    (first : (fields.lookup "family").bind Json.string? = some family)
    (second : (fields.lookup (nameKey family)).bind Json.string? = some name) :
    ∃ node, ofJson (.object fields) = .ok node ∧ node.family = family ∧ node.name = name ∧
      node.fields = .named fields := by
  simp only [ofJson, first, second]
  exact ⟨_, rfl, rfl, rfl, rfl⟩

theorem exists_holds (family name : String) (fields : List (String × Json)) :
    ∃ node, ofJson (Expr.nodeToJson family name fields) = .ok node ∧
      node.Holds family name fields := by
  -- neither of the two keys that a name can stand under hides a field or the family
  have keys : nameKey family = "kind" ∨ nameKey family = "species" := by
    unfold nameKey
    split <;> simp
  have apart : (nameKey family == "family") = false := by
    rcases keys with key | key <;> rw [key] <;> rfl
  obtain ⟨node, read, sameFamily, sameName, sameFields⟩ := @ofJson_object
    (("family", .string family) :: (nameKey family, .string name) :: fields) family name
    (by simp [Json.string?]) (by simp [List.lookup_cons, apart, Json.string?])
  refine ⟨node, read, sameFamily, sameName, fun key position part found other => ?_⟩
  simp only [List.mem_cons, List.not_mem_nil, or_false, not_or] at other
  have first : (key == "family") = false := by simpa using other.1
  have second : (key == nameKey family) = false := by
    rcases keys with key | key <;> rw [key] <;> simp [other]
  rw [sameFields, Fields.get?, List.lookup_cons, first, List.lookup_cons, second, found]

theorem stringItems?_map (names : List String) : stringItems? (names.map .string) = some names := by
  induction names with
  | nil => rfl
  | cons name rest ih => rw [List.map_cons, stringItems?, ih, Option.map_some]

namespace Holds

variable {whole : Json} {node : Node whole} {family name : String} {fields : List (String × Json)}
  {key : String} {position : Nat}

theorem field {part : Json} (holds : node.Holds family name fields)
    (found : fields.lookup key = some part) (other : key ∉ ["family", "kind", "species"]) :
    ∃ smaller, node.field key position = .ok ⟨part, smaller⟩ :=
  have here := holds.get? key position part found other
  ⟨node.within key position part here, field_eq_ok.mpr here⟩

theorem nameField {value : String} (holds : node.Holds family name fields) (formed : IsName value)
    (found : fields.lookup key = some (.string value)) (other : key ∉ ["family", "kind", "species"]) :
    node.nameField key position = .ok value :=
  nameField_eq_ok.mpr ⟨value, holds.get? key position _ found other, formed.2, formed.1⟩

theorem columnsField {columns : List String} (holds : node.Holds family name fields)
    (formed : AreColumns columns) (found : fields.lookup key = some (Stage.namesToJson columns))
    (other : key ∉ ["family", "kind", "species"]) : node.columnsField key position = .ok columns := by
  refine columnsField_eq_ok.mpr
    ⟨_, columns, holds.get? key position _ found other, stringItems?_map columns, ?_, formed.1⟩
  have trimmed : columns.map Text.trim = columns :=
    (List.map_congr_left fun name here => (formed.2 name here).2).trans (List.map_id columns)
  rw [trimmed, List.filter_eq_self]
  intro name here
  simpa using (formed.2 name here).1

end Holds

end Node

namespace UnaryOp

theorem ofName?_name (op : UnaryOp) : ofName? op.name = some op := by
  cases op with
  | hasKind kind => cases kind <;> rfl
  | convert kind => cases kind <;> rfl
  | part part => cases part <;> rfl
  | _ => rfl

theorem ofName?_binary (op : BinaryOp) : ofName? op.name = none := by
  cases op with
  | arithmetic op => cases op <;> rfl
  | comparison op => cases op <;> rfl
  | _ => rfl

end UnaryOp

theorem BinaryOp.ofName?_name (op : BinaryOp) : ofName? op.name = some op := by
  cases op with
  | arithmetic op => cases op <;> rfl
  | comparison op => cases op <;> rfl
  | _ => rfl

theorem Summary.ofName?_name (summary : Summary) : ofName? summary.name = some summary := by
  cases summary <;> rfl

theorem Summary.isName_name (summary : Summary) : IsName summary.name := by
  cases summary <;> exact ⟨by decide, rfl⟩

/-! ### Expressions -/

namespace Expr

def unsigned : Expr → Expr
  | constant cell => constant cell.unsigned
  | column name => column name
  | rowIndex => rowIndex
  | unary op arg => unary op arg.unsigned
  | binary op left right => binary op left.unsigned right.unsigned
  | ifElse condition yes no => ifElse condition.unsigned yes.unsigned no.unsigned

theorem unsigned_beq {e : Expr} (formed : e.WellFormed) : (e.unsigned == e) = true := by
  induction e with
  | constant cell => exact Cell.unsigned_beq (Cell.WellFormed.isFinite formed)
  | column name => exact beq_self_eq_true name
  | rowIndex => rfl
  | unary op arg ih =>
    change (op == op && arg.unsigned == arg) = true
    rw [beq_self_eq_true, ih formed, Bool.and_self]
  | binary op left right ihLeft ihRight =>
    change (op == op && (left.unsigned == left && right.unsigned == right)) = true
    rw [beq_self_eq_true, ihLeft formed.1, ihRight formed.2, Bool.and_self, Bool.and_self]
  | ifElse condition yes no ihCondition ihYes ihNo =>
    change (condition.unsigned == condition && (yes.unsigned == yes && no.unsigned == no)) = true
    rw [ihCondition formed.1, ihYes formed.2.1, ihNo formed.2.2, Bool.and_self, Bool.and_self]

theorem leafOfNode_constant {whole : Json} {node : Node whole} {v : Value}
    (formed : Cell.WellFormed (some v))
    (holds : node.Holds Node.valueFamily v.kind.name [("value", Cell.toJson (some v))]) :
    leafOfNode node = .ok (constant (Cell.unsigned (some v))) := by
  obtain ⟨_, field⟩ := @Node.Holds.field _ _ _ _ _ "value" 0 _ holds rfl (by decide)
  cases v with
  | logical b =>
    have name : node.name = "logical" := holds.name
    simp only [leafOfNode, name, field, bind_eq_ok]
    exact ⟨_, rfl, rfl⟩
  | number x =>
    have name : node.name = "number" := holds.name
    simp only [leafOfNode, name, field, bind_eq_ok]
    refine ⟨_, rfl, ?_⟩
    simp only [Cell.toJson, Number.number?_numberToJson formed,
      if_pos (Number.isFinite_unsigned formed)]
    rfl
  | text s =>
    have name : node.name = "text" := holds.name
    simp only [leafOfNode, name, leafOfNode.textLeaf, field, bind_eq_ok]
    exact ⟨_, rfl, rfl⟩
  | datetime d =>
    have name : node.name = "datetime" := holds.name
    simp only [leafOfNode, name, field, bind_eq_ok]
    refine ⟨_, rfl, ?_⟩
    simp only [Cell.toJson, Cell.ofJson, Cell.toDatetime, Datetime.ofText?_toText,
      Datetime.settled_eq_self_iff.mpr formed, Option.map_some]
    rfl

theorem ofJson_toJson {e : Expr} (formed : e.WellFormed) : ofJson e.toJson = .ok e.unsigned := by
  induction e with
  | constant cell =>
    cases cell with
    | none =>
      obtain ⟨node, read, holds⟩ := Node.exists_holds Node.valueFamily "absent" []
      refine ofJson_eq_ok.mpr ⟨node, read, .leaf holds.family ?_⟩
      simp only [leafOfNode, holds.name]
      rfl
    | some v =>
      obtain ⟨node, read, holds⟩ := Node.exists_holds Node.valueFamily v.kind.name
        [("value", Cell.toJson (some v))]
      exact ofJson_eq_ok.mpr ⟨node, read, .leaf holds.family (leafOfNode_constant formed holds)⟩
  | column name =>
    obtain ⟨node, read, holds⟩ := Node.exists_holds Node.valueFamily "column" [("value", .string name)]
    refine ofJson_eq_ok.mpr ⟨node, read, .leaf holds.family ?_⟩
    simp only [leafOfNode, holds.name, bind_eq_ok]
    exact ⟨name, holds.nameField formed rfl (by decide), rfl⟩
  | rowIndex =>
    obtain ⟨node, read, holds⟩ := Node.exists_holds Node.valueFamily "rowIndex" []
    refine ofJson_eq_ok.mpr ⟨node, read, .leaf holds.family ?_⟩
    simp only [leafOfNode, holds.name]
    rfl
  | unary op arg ih =>
    obtain ⟨node, read, holds⟩ := Node.exists_holds Node.operatorFamily op.name [("arg", arg.toJson)]
    exact ofJson_eq_ok.mpr ⟨node, read, .unary holds.family (holds.name ▸ op.ofName?_name)
      (holds.get? _ _ _ rfl (by decide)) (ih formed)⟩
  | binary op left right ihLeft ihRight =>
    obtain ⟨node, read, holds⟩ := Node.exists_holds Node.operatorFamily op.name
      [("left", left.toJson), ("right", right.toJson)]
    exact ofJson_eq_ok.mpr ⟨node, read, .binary holds.family (holds.name ▸ UnaryOp.ofName?_binary op)
      (holds.name ▸ op.ofName?_name) (holds.get? _ _ _ rfl (by decide)) (ihLeft formed.1)
      (holds.get? _ _ _ rfl (by decide)) (ihRight formed.2)⟩
  | ifElse condition yes no ihCondition ihYes ihNo =>
    obtain ⟨node, read, holds⟩ := Node.exists_holds Node.operatorFamily "ifElse"
      [("left", condition.toJson), ("middle", yes.toJson), ("right", no.toJson)]
    exact ofJson_eq_ok.mpr ⟨node, read, .ifElse holds.family holds.name
      (holds.get? _ _ _ rfl (by decide)) (ihCondition formed.1)
      (holds.get? _ _ _ rfl (by decide)) (ihYes formed.2.1)
      (holds.get? _ _ _ rfl (by decide)) (ihNo formed.2.2)⟩

end Expr

/-! ### Stages -/

namespace Stage

def unsigned : Stage → Stage
  | filter e => filter e.unsigned
  | mutate column e => mutate column e.unsigned
  | stage => stage

theorem unsigned_beq {stage : Stage} (formed : stage.WellFormed) :
    (stage.unsigned == stage) = true := by
  have both {a b : Bool} (first : a = true) (second : b = true) : (a && b) = true := by
    rw [first, second, Bool.and_self]
  cases stage with
  | drop columns => exact beq_self_eq_true columns
  | filter e => exact Expr.unsigned_beq formed
  | groupBy columns => exact beq_self_eq_true columns
  | join leftTable leftColumn rightTable rightColumn =>
    exact both (beq_self_eq_true leftTable) (both (beq_self_eq_true leftColumn)
      (both (beq_self_eq_true rightTable) (beq_self_eq_true rightColumn)))
  | mutate column e => exact both (beq_self_eq_true column) (Expr.unsigned_beq formed.2)
  | notify signal => exact beq_self_eq_true signal
  | read source => exact beq_self_eq_true source
  | select columns => exact beq_self_eq_true columns
  | sort columns descending => exact both (beq_self_eq_true columns) (beq_self_eq_true descending)
  | summarize summary column => exact both (beq_self_eq_true summary) (beq_self_eq_true column)
  | ungroup => rfl
  | unique columns => exact beq_self_eq_true columns

variable {whole : Json} {node : Node whole}

theorem exprField_eq_ok {family name key : String} {fields : List (String × Json)} {position : Nat}
    {e : Expr} (holds : node.Holds family name fields) (formed : e.WellFormed)
    (found : fields.lookup key = some e.toJson) (other : key ∉ ["family", "kind", "species"]) :
    exprField node key position = .ok e.unsigned := by
  obtain ⟨_, read⟩ := holds.field found other
  exact bind_eq_ok.mpr ⟨_, read, under_eq_ok.mpr (Expr.ofJson_toJson formed)⟩

theorem descendingField_eq_ok {family name : String} {fields : List (String × Json)}
    {descending : Bool} (holds : node.Holds family name fields)
    (found : fields.lookup "descending" = some (.bool descending)) :
    descendingField node = .ok descending := by
  have here := holds.get? "descending" 1 _ found (by decide)
  have read : node.field? "descending" 1 = some ⟨_, node.within _ _ _ here⟩ :=
    Node.field?_eq_some.mpr here
  rw [descendingField, read]
  rfl

theorem summaryField_eq_ok {family name : String} {fields : List (String × Json)}
    {summary : Summary} (holds : node.Holds family name fields)
    (found : fields.lookup "func" = some (.string summary.name)) :
    summaryField node = .ok summary := by
  refine bind_eq_ok.mpr ⟨summary.name, holds.nameField summary.isName_name found (by decide), ?_⟩
  simp only [summary.ofName?_name]
  rfl

theorem ofNode_eq_ok {stage : Stage} (formed : stage.WellFormed)
    (holds : node.Holds Node.stageFamily stage.kind stage.fieldsToJson) :
    ofNode node = .ok stage.unsigned := by
  have name := holds.name
  cases stage with
  | drop columns =>
    simp only [ofNode, name, kind, bind_eq_ok]
    exact ⟨columns, holds.columnsField formed rfl (by decide), rfl⟩
  | filter e =>
    simp only [ofNode, name, kind, bind_eq_ok]
    exact ⟨e.unsigned, exprField_eq_ok holds formed rfl (by decide), rfl⟩
  | groupBy columns =>
    simp only [ofNode, name, kind, bind_eq_ok]
    exact ⟨columns, holds.columnsField formed rfl (by decide), rfl⟩
  | join leftTable leftColumn rightTable rightColumn =>
    obtain ⟨first, second, third, fourth⟩ := formed
    simp only [ofNode, name, kind, bind_eq_ok]
    exact ⟨leftTable, holds.nameField first rfl (by decide),
      leftColumn, holds.nameField second rfl (by decide),
      rightTable, holds.nameField third rfl (by decide),
      rightColumn, holds.nameField fourth rfl (by decide), rfl⟩
  | mutate column e =>
    simp only [ofNode, name, kind, bind_eq_ok]
    exact ⟨column, holds.nameField formed.1 rfl (by decide),
      e.unsigned, exprField_eq_ok holds formed.2 rfl (by decide), rfl⟩
  | notify signal =>
    simp only [ofNode, name, kind, bind_eq_ok]
    exact ⟨signal, holds.nameField formed rfl (by decide), rfl⟩
  | read source =>
    simp only [ofNode, name, kind, bind_eq_ok]
    exact ⟨source, holds.nameField formed rfl (by decide), rfl⟩
  | select columns =>
    simp only [ofNode, name, kind, bind_eq_ok]
    exact ⟨columns, holds.columnsField formed rfl (by decide), rfl⟩
  | sort columns descending =>
    simp only [ofNode, name, kind, bind_eq_ok]
    exact ⟨columns, holds.columnsField formed rfl (by decide),
      descending, descendingField_eq_ok holds rfl, rfl⟩
  | summarize summary column =>
    simp only [ofNode, name, kind, bind_eq_ok]
    exact ⟨summary, summaryField_eq_ok holds rfl,
      column, holds.nameField formed rfl (by decide), rfl⟩
  | ungroup =>
    simp only [ofNode, name, kind]
    rfl
  | unique columns =>
    simp only [ofNode, name, kind, bind_eq_ok]
    exact ⟨columns, holds.columnsField formed rfl (by decide), rfl⟩

theorem ofJson_toJson {stage : Stage} (formed : stage.WellFormed) :
    ofJson stage.toJson = .ok stage.unsigned := by
  obtain ⟨node, read, holds⟩ :=
    Node.exists_holds Node.stageFamily stage.kind stage.fieldsToJson
  exact ofJson_eq_ok.mpr ⟨node, read, holds.family, ofNode_eq_ok formed holds⟩

end Stage

/-! ### Pipelines and programs -/

theorem map_beq_self {α : Type} [BEq α] {f : α → α} {items : List α}
    (same : ∀ item ∈ items, (f item == item) = true) : (items.map f == items) = true := by
  induction items with
  | nil => rfl
  | cons item rest ih =>
    rw [List.map_cons, List.cons_beq_cons, same item List.mem_cons_self,
      ih fun other later => same other (List.mem_cons_of_mem _ later), Bool.and_self]

namespace Pipeline

def unsigned (p : Pipeline) : Pipeline := ⟨p.stages.map Stage.unsigned⟩

theorem unsigned_beq {p : Pipeline} (formed : p.WellFormed) : (p.unsigned == p) = true :=
  map_beq_self fun stage here => Stage.unsigned_beq (formed stage here)

theorem ofNamedJson_toJson {p : Pipeline} (formed : p.WellFormed) (name : String) :
    ofNamedJson name p.toJson = .ok p.unsigned := by
  refine ofNamedJson_eq_ok.mpr ⟨_, rfl, ?_⟩
  rw [unsigned, List.map_map, List.map_map]
  exact List.map_congr_left fun stage here => Stage.ofJson_toJson (formed stage here)

end Pipeline

namespace Program

def unsigned (p : Program) : Program := ⟨p.pipelines.map Pipeline.unsigned⟩

theorem wellFormed_of_mem {p : Program} (formed : p.WellFormed) {entry : String × Pipeline}
    (here : entry ∈ p.pipelines.entries) : entry.2.WellFormed :=
  formed entry.2 (List.mem_map_of_mem here)

theorem unsigned_beq {p : Program} (formed : p.WellFormed) : (p.unsigned == p) = true := by
  refine map_beq_self fun entry here => ?_
  change (entry.1 == entry.1 && entry.2.unsigned == entry.2) = true
  rw [beq_self_eq_true, Pipeline.unsigned_beq (wellFormed_of_mem formed here), Bool.and_self]

theorem ofJson_toJson {p : Program} (formed : p.WellFormed) : ofJson p.toJson = .ok p.unsigned := by
  refine ofJson_eq_ok.mpr ⟨_, p.unsigned.pipelines.entries, rfl, ?_, ?_⟩
  · rw [unsigned, OrderedMap.map, List.map_map, List.map_map]
    refine List.map_congr_left fun entry here => ?_
    simp only [Function.comp,
      Pipeline.ofNamedJson_toJson (wellFormed_of_mem formed here) entry.1]
  · rw [OrderedMap.ofList_entries]

end Program

/-! ### All four -/

/-- Reading gives well-formed values only, and gives back what was written of a well-formed value,
up to equality. -/
structure Faithful {α : Type} [BEq α] (read : Json → Except Malformed α) (write : α → Json)
    (WellFormed : α → Prop) : Prop where
  formed : ∀ json x, read json = .ok x → WellFormed x
  back : ∀ x, WellFormed x → ∃ again, read (write x) = .ok again ∧ (again == x) = true

theorem documents_round_trip :
    Faithful Expr.ofJson Expr.toJson Expr.WellFormed ∧
    Faithful Stage.ofJson Stage.toJson Stage.WellFormed ∧
    Faithful Pipeline.ofJson Pipeline.toJson Pipeline.WellFormed ∧
    Faithful Program.ofJson Program.toJson Program.WellFormed := by
  refine ⟨⟨?_, ?_⟩, ⟨?_, ?_⟩, ⟨?_, ?_⟩, ⟨?_, ?_⟩⟩
  · exact fun json _ => Expr.wellFormed_of_ofJson json
  · exact fun e formed => ⟨e.unsigned, Expr.ofJson_toJson formed, Expr.unsigned_beq formed⟩
  · exact fun _ _ => Stage.wellFormed_of_ofJson
  · exact fun stage formed =>
      ⟨stage.unsigned, Stage.ofJson_toJson formed, Stage.unsigned_beq formed⟩
  · exact fun _ _ => Pipeline.wellFormed_of_ofNamedJson
  · exact fun p formed =>
      ⟨p.unsigned, Pipeline.ofNamedJson_toJson formed "", Pipeline.unsigned_beq formed⟩
  · exact fun _ _ => Program.wellFormed_of_ofJson
  · exact fun p formed => ⟨p.unsigned, Program.ofJson_toJson formed, Program.unsigned_beq formed⟩

/-- A leap second of the year 12345. -/
def Datetime.leap : Datetime :=
  ⟨⟨12345, 6, 30, by decide, by decide, by decide⟩, 23, 59, 59, 1500000000, by decide⟩

/-- Past events in parts, with a negative zero and the least number that is not written as an
integer. -/
def Program.archive : Program :=
  ⟨.ofList [(" ", ⟨[.read "past events",
    .filter (.binary (.comparison .less) (.column "when") (.constant (some (.datetime .leap)))),
    .mutate "part" (.ifElse (.unary .isMissing (.column "size")) (.constant (some (.number (-0))))
      (.binary (.arithmetic .divide) (.column "size") (.constant (some (.number 9e15))))),
    .sort ["part", "when"] true, .notify "done"]⟩)]⟩

theorem documents_round_trip_archive :
    Program.archive.WellFormed ∧
      ∃ again, Program.ofJson Program.archive.toJson = .ok again ∧
        (again == Program.archive) = true ∧ again.WellFormed := by
  have formed : Program.archive.WellFormed := by decide
  obtain ⟨again, read, same⟩ := documents_round_trip.2.2.2.back Program.archive formed
  exact ⟨formed, again, read, same, documents_round_trip.2.2.2.formed _ _ read⟩

/-- A constant without numbers, columns or names comes back as another: a leap second in the middle
of a minute is written as the second after it. -/
theorem documents_move_midLeap :
    let e : Expr := .constant (some (.datetime .midLeap))
    Cell.IsFinite (some (.datetime .midLeap)) ∧
      ∃ again, Expr.ofJson e.toJson = .ok again ∧ (again == e) = false := by
  intro e
  let shown : Expr := .constant (some (.datetime Datetime.midLeap.settled))
  have written : e.toJson = shown.toJson := by rfl
  refine ⟨trivial, shown, ?_, by decide⟩
  rw [written]
  exact Expr.ofJson_toJson (e := shown) (by decide)

end Tableflow
