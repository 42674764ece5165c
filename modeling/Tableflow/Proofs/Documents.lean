import Tableflow.Document.Program
import Tableflow.Proofs.DatetimeText
import Tableflow.Proofs.Stages

/-!
What can be read from documents. Reading a node ends well for fields of the right form only; what
comes out is well formed: its numbers are finite, its leap seconds come at the end of a minute, its
lists of columns are not empty, and its names are not empty and have no blanks at their ends.
-/

namespace Tableflow

theorem under_eq_ok {α : Type} {step : String} {outcome : Except Malformed α} {result : α} :
    Malformed.under step outcome = .ok result ↔ outcome = .ok result := mapError_eq_ok

/-! ### Fields -/

/-- A name without blanks at its ends. -/
def IsName (name : String) : Prop := name ≠ "" ∧ Text.trim name = name

/-- A list of columns to work on. -/
def AreColumns (names : List String) : Prop := names ≠ [] ∧ ∀ name ∈ names, IsName name

instance : DecidablePred IsName := fun name =>
  inferInstanceAs (Decidable (name ≠ "" ∧ Text.trim name = name))

instance : DecidablePred AreColumns := fun names =>
  inferInstanceAs (Decidable (names ≠ [] ∧ ∀ name ∈ names, IsName name))

namespace Node

variable {whole : Json} {node : Node whole} {key : String} {position : Nat}

theorem field?_eq_some {part : Json.Part whole} :
    node.field? key position = some part ↔ node.fields.get? key position = some part.val := by
  unfold field?
  split
  · rename_i value found
    simp [found, Subtype.ext_iff]
  · rename_i absent
    simp [absent]

theorem field_eq_ok {part : Json.Part whole} :
    node.field key position = .ok part ↔ node.fields.get? key position = some part.val := by
  rw [← field?_eq_some, field]
  cases node.field? key position <;> simp [Problem.here]

theorem nameField_eq_ok {name : String} : node.nameField key position = .ok name ↔
    ∃ s, node.fields.get? key position = some (.string s) ∧ Text.trim s = name ∧ name ≠ "" := by
  rw [nameField, bind_eq_ok]
  constructor
  · rintro ⟨⟨part, _⟩, found, read⟩
    have found := field_eq_ok.mp found
    cases part with
    | string s =>
      dsimp only at read
      split at read
      · cases read
      · rename_i some
        obtain rfl := pure_eq_ok.mp read
        exact ⟨s, found, rfl, some⟩
    | _ => cases read
  · rintro ⟨s, found, rfl, some⟩
    refine ⟨⟨.string s, node.within key position _ found⟩, field_eq_ok.mpr found, ?_⟩
    simp only [if_neg some]
    rfl

/-- The names that a field lists. -/
def listed? : Json → Option (List String)
  | .string s => some ((splitCommas s.toList).map String.ofList)
  | .array items => stringItems? items
  | _ => none

theorem columnsField_eq_ok {columns : List String} : node.columnsField key position = .ok columns ↔
    ∃ part names, node.fields.get? key position = some part ∧ listed? part = some names ∧
      (names.map Text.trim).filter (fun name => name ≠ "") = columns ∧ columns ≠ [] := by
  have kept (names : List String) :
      (if ((names.map Text.trim).filter (fun name => name ≠ "")).isEmpty = true then
        (Problem.noColumns node.name).at key
      else pure ((names.map Text.trim).filter fun name => name ≠ "")) = Except.ok columns ↔
      (names.map Text.trim).filter (fun name => name ≠ "") = columns ∧ columns ≠ [] := by
    split
    · rename_i empty
      rw [List.isEmpty_iff] at empty
      rw [empty]
      exact ⟨nofun, fun kept => absurd kept.1.symm kept.2⟩
    · rename_i some
      rw [List.isEmpty_iff] at some
      rw [pure_eq_ok]
      exact ⟨fun same => ⟨same, same ▸ some⟩, And.left⟩
  rw [columnsField, bind_eq_ok]
  constructor
  · rintro ⟨⟨part, _⟩, found, read⟩
    cases part with
    | string s => exact ⟨_, _, field_eq_ok.mp found, rfl, (kept _).mp read⟩
    | array items =>
      dsimp only at read
      split at read
      · rename_i names strings
        exact ⟨_, names, field_eq_ok.mp found, strings, (kept _).mp read⟩
      · cases read
    | _ => cases read
  · rintro ⟨part, names, found, listed, columns⟩
    refine ⟨⟨part, node.within key position _ found⟩, field_eq_ok.mpr found, ?_⟩
    cases part with
    | string s =>
      obtain rfl := Option.some.inj listed
      exact (kept _).mpr columns
    | array items =>
      have strings : stringItems? items = some names := listed
      simp only [strings]
      exact (kept _).mpr columns
    | _ => cases listed

theorem isName_of_nameField {name : String} (read : node.nameField key position = .ok name) :
    IsName name := by
  obtain ⟨s, _, rfl, some⟩ := nameField_eq_ok.mp read
  exact ⟨some, Text.trim_trim s⟩

theorem areColumns_of_columnsField {columns : List String}
    (read : node.columnsField key position = .ok columns) : AreColumns columns := by
  obtain ⟨_, names, _, _, rfl, some⟩ := columnsField_eq_ok.mp read
  refine ⟨some, fun name here => ?_⟩
  simp only [List.mem_filter, List.mem_map, decide_eq_true_eq] at here
  obtain ⟨⟨s, _, rfl⟩, nonempty⟩ := here
  exact ⟨nonempty, Text.trim_trim s⟩

end Node

/-! ### Well-formed expressions and what is read as one -/

def Cell.IsFinite : Cell → Prop
  | some (.number x) => x.isFinite = true
  | _ => True

instance : DecidablePred Cell.IsFinite
  | some (.number x) => inferInstanceAs (Decidable (x.isFinite = true))
  | none => .isTrue trivial
  | some (.logical _) => .isTrue trivial
  | some (.text _) => .isTrue trivial
  | some (.datetime _) => .isTrue trivial

/-- Conversion gives no numbers. -/
theorem Cell.isFinite_toDatetime (cell : Cell) : cell.toDatetime.IsFinite := by
  have dated (d : Option Datetime) : Cell.IsFinite (d.map Value.datetime) := by
    cases d <;> exact trivial
  cases cell with
  | none => exact trivial
  | some v =>
    cases v with
    | logical b => exact trivial
    | number x => exact dated _
    | text s => exact dated _
    | datetime d => exact trivial

/-- Numbers are finite, and leap seconds come at the end of a minute only. -/
def Cell.WellFormed : Cell → Prop
  | some (.number x) => x.isFinite = true
  | some (.datetime d) => d.IsRegular
  | _ => True

instance : DecidablePred Cell.WellFormed
  | some (.number x) => inferInstanceAs (Decidable (x.isFinite = true))
  | some (.datetime d) => inferInstanceAs (Decidable d.IsRegular)
  | none => .isTrue trivial
  | some (.logical _) => .isTrue trivial
  | some (.text _) => .isTrue trivial

theorem Cell.WellFormed.isFinite {cell : Cell} (formed : cell.WellFormed) : cell.IsFinite := by
  cases cell with
  | none => exact trivial
  | some v =>
    cases v with
    | number x => exact formed
    | _ => exact trivial

/-- The cell of a scalar is no datetime, so a datetime that it is converted to has been read from text
or from a number. -/
theorem Cell.wellFormed_toDatetime {json : Json} {cell : Cell} (read : ofJson json = .ok cell) :
    cell.toDatetime.WellFormed := by
  have dated {d : Option Datetime} (regular : ∀ e, d = some e → e.IsRegular) :
      Cell.WellFormed (d.map Value.datetime) := by
    cases d with
    | none => exact trivial
    | some e => exact regular e rfl
  cases cell with
  | none => exact trivial
  | some v =>
    cases v with
    | logical b => exact trivial
    | number x =>
      refine dated fun e made => ?_
      obtain ⟨n, -, made⟩ := Option.bind_eq_some_iff.mp made
      exact Datetime.isRegular_of_ofMillis? made
    | text s => exact dated fun e => Datetime.isRegular_of_ofText?
    | datetime d =>
      cases json with
      | int n =>
        simp only [ofJson] at read
        split at read <;> cases read
      | float x =>
        simp only [ofJson] at read
        split at read <;> cases read
      | _ => cases read

namespace Expr

def WellFormed : Expr → Prop
  | constant cell => cell.WellFormed
  | column name => IsName name
  | rowIndex => True
  | unary _ arg => arg.WellFormed
  | binary _ left right => left.WellFormed ∧ right.WellFormed
  | ifElse condition yes no => condition.WellFormed ∧ yes.WellFormed ∧ no.WellFormed

def decideWellFormed : (e : Expr) → Decidable e.WellFormed
  | constant cell => inferInstanceAs (Decidable cell.WellFormed)
  | column name => inferInstanceAs (Decidable (IsName name))
  | rowIndex => .isTrue trivial
  | unary _ arg => arg.decideWellFormed
  | binary _ left right => @instDecidableAnd _ _ left.decideWellFormed right.decideWellFormed
  | ifElse condition yes no =>
    @instDecidableAnd _ _ condition.decideWellFormed
      (@instDecidableAnd _ _ yes.decideWellFormed no.decideWellFormed)

instance : DecidablePred WellFormed := decideWellFormed

variable {whole json : Json} {node : Node whole} {e : Expr}

/-- The expressions that a node can stand for: a leaf, or an operator over the expressions in its
fields. -/
inductive Stands (node : Node whole) : Expr → Prop where
  | leaf {e : Expr} (family : node.family = Node.valueFamily) (read : leafOfNode node = .ok e) :
    Stands node e
  | unary {op : UnaryOp} {part : Json} {arg : Expr} (family : node.family = Node.operatorFamily)
    (name : UnaryOp.ofName? node.name = some op)
    (found : node.fields.get? "arg" 0 = some part) (read : ofJson part = .ok arg) :
    Stands node (unary op arg)
  | binary {op : BinaryOp} {first second : Json} {left right : Expr}
    (family : node.family = Node.operatorFamily)
    (other : UnaryOp.ofName? node.name = none) (name : BinaryOp.ofName? node.name = some op)
    (found : node.fields.get? "left" 0 = some first) (read : ofJson first = .ok left)
    (found' : node.fields.get? "right" 1 = some second) (read' : ofJson second = .ok right) :
    Stands node (binary op left right)
  | ifElse {first second third : Json} {condition yes no : Expr}
    (family : node.family = Node.operatorFamily)
    (name : node.name = "ifElse")
    (found : node.fields.get? "left" 0 = some first) (read : ofJson first = .ok condition)
    (found' : node.fields.get? "middle" 1 = some second) (read' : ofJson second = .ok yes)
    (found'' : node.fields.get? "right" 2 = some third) (read'' : ofJson third = .ok no) :
    Stands node (ifElse condition yes no)

theorem ofJson_eq_ok : ofJson json = .ok e ↔ ∃ node, Node.ofJson json = .ok node ∧ Stands node e := by
  rw [ofJson, bind_eq_ok]
  refine exists_congr fun node => and_congr_right fun _ => ?_
  constructor
  · intro read
    split at read
    · exact .leaf ‹_› read
    split at read
    · rename_i family
      split at read
      · rename_i op name
        obtain ⟨⟨part, _⟩, found, read⟩ := bind_eq_ok.mp read
        obtain ⟨arg, inner, read⟩ := bind_eq_ok.mp read
        obtain rfl := pure_eq_ok.mp read
        exact .unary family name (Node.field_eq_ok.mp found) (under_eq_ok.mp inner)
      · rename_i other
        split at read
        · rename_i op name
          obtain ⟨⟨first, _⟩, found, read⟩ := bind_eq_ok.mp read
          obtain ⟨left, inner, read⟩ := bind_eq_ok.mp read
          obtain ⟨⟨second, _⟩, found', read⟩ := bind_eq_ok.mp read
          obtain ⟨right, inner', read⟩ := bind_eq_ok.mp read
          obtain rfl := pure_eq_ok.mp read
          exact .binary family other name (Node.field_eq_ok.mp found) (under_eq_ok.mp inner)
            (Node.field_eq_ok.mp found') (under_eq_ok.mp inner')
        · split at read
          · rename_i name
            obtain ⟨⟨first, _⟩, found, read⟩ := bind_eq_ok.mp read
            obtain ⟨condition, inner, read⟩ := bind_eq_ok.mp read
            obtain ⟨⟨second, _⟩, found', read⟩ := bind_eq_ok.mp read
            obtain ⟨yes, inner', read⟩ := bind_eq_ok.mp read
            obtain ⟨⟨third, _⟩, found'', read⟩ := bind_eq_ok.mp read
            obtain ⟨no, inner'', read⟩ := bind_eq_ok.mp read
            obtain rfl := pure_eq_ok.mp read
            exact .ifElse family name (Node.field_eq_ok.mp found) (under_eq_ok.mp inner)
              (Node.field_eq_ok.mp found') (under_eq_ok.mp inner') (Node.field_eq_ok.mp found'')
              (under_eq_ok.mp inner'')
          · cases read
    · cases read
  · -- a node is no leaf if it is an operator, and no name is that of operators of two arities
    have operator : Node.operatorFamily ≠ Node.valueFamily := by decide
    intro stands
    cases stands with
    | leaf family read => rw [if_pos family, read]
    | unary family name found read =>
      simp only [family, if_neg operator, if_true, name, bind_eq_ok]
      exact ⟨⟨_, node.within _ _ _ found⟩, Node.field_eq_ok.mpr found, _, under_eq_ok.mpr read, rfl⟩
    | binary family other name found read found' read' =>
      simp only [family, if_neg operator, if_true, other, name, bind_eq_ok]
      exact ⟨⟨_, node.within _ _ _ found⟩, Node.field_eq_ok.mpr found, _, under_eq_ok.mpr read,
        ⟨_, node.within _ _ _ found'⟩, Node.field_eq_ok.mpr found', _, under_eq_ok.mpr read', rfl⟩
    | ifElse family name found read found' read' found'' read'' =>
      have unary : UnaryOp.ofName? "ifElse" = none := by decide
      have binary : BinaryOp.ofName? "ifElse" = none := by decide
      simp only [family, if_neg operator, if_true, name, unary, binary, bind_eq_ok]
      exact ⟨⟨_, node.within _ _ _ found⟩, Node.field_eq_ok.mpr found, _, under_eq_ok.mpr read,
        ⟨_, node.within _ _ _ found'⟩, Node.field_eq_ok.mpr found', _, under_eq_ok.mpr read',
        ⟨_, node.within _ _ _ found''⟩, Node.field_eq_ok.mpr found'', _, under_eq_ok.mpr read'', rfl⟩

theorem wellFormed_of_leafOfNode (read : leafOfNode node = .ok e) : e.WellFormed := by
  have text (read : leafOfNode.textLeaf node = .ok e) : e.WellFormed := by
    obtain ⟨⟨part, _⟩, _, read⟩ := bind_eq_ok.mp read
    cases part with
    | string s =>
      obtain rfl := pure_eq_ok.mp read
      exact trivial
    | _ => cases read
  unfold leafOfNode at read
  split at read
  · obtain rfl := pure_eq_ok.mp read
    exact trivial
  · obtain rfl := pure_eq_ok.mp read
    exact trivial
  · obtain ⟨name, named, read⟩ := bind_eq_ok.mp read
    obtain rfl := pure_eq_ok.mp read
    exact Node.isName_of_nameField named
  · obtain ⟨⟨part, _⟩, _, read⟩ := bind_eq_ok.mp read
    cases part with
    | bool b =>
      obtain rfl := pure_eq_ok.mp read
      exact trivial
    | _ => cases read
  · obtain ⟨part, _, read⟩ := bind_eq_ok.mp read
    split at read
    · split at read
      · rename_i finite
        obtain rfl := pure_eq_ok.mp read
        exact finite
      · cases read
    · cases read
  · exact text read
  · exact text read
  · obtain ⟨part, _, read⟩ := bind_eq_ok.mp read
    split at read
    · cases read
    · split at read
      · rename_i cell made _ v converted
        obtain rfl := pure_eq_ok.mp read
        exact converted ▸ Cell.wellFormed_toDatetime made
      · cases read
  · cases read

theorem wellFormed_of_ofJson (json : Json) {e : Expr} (accepted : ofJson json = .ok e) :
    e.WellFormed := by
  obtain ⟨node, _, stands⟩ := ofJson_eq_ok.mp accepted
  clear accepted
  cases stands with
  | leaf _ read => exact wellFormed_of_leafOfNode read
  | unary _ _ found read =>
    have smaller := node.within _ _ _ found
    have inner := wellFormed_of_ofJson _ read
    exact inner
  | binary _ _ _ found read found' read' =>
    have smaller := node.within _ _ _ found
    have smaller' := node.within _ _ _ found'
    exact ⟨wellFormed_of_ofJson _ read, wellFormed_of_ofJson _ read'⟩
  | ifElse _ _ found read found' read' found'' read'' =>
    have smaller := node.within _ _ _ found
    have smaller' := node.within _ _ _ found'
    have smaller'' := node.within _ _ _ found''
    exact ⟨wellFormed_of_ofJson _ read, wellFormed_of_ofJson _ read', wellFormed_of_ofJson _ read''⟩
termination_by sizeOf json

end Expr

/-! ### Stages, pipelines and programs -/

namespace Stage

def WellFormed : Stage → Prop
  | drop columns => AreColumns columns
  | filter e => e.WellFormed
  | groupBy columns => AreColumns columns
  | join leftTable leftColumn rightTable rightColumn =>
    IsName leftTable ∧ IsName leftColumn ∧ IsName rightTable ∧ IsName rightColumn
  | mutate column e => IsName column ∧ e.WellFormed
  | notify signal => IsName signal
  | read source => IsName source
  | select columns => AreColumns columns
  | sort columns _ => AreColumns columns
  | summarize _ column => IsName column
  | ungroup => True
  | unique columns => AreColumns columns

instance : DecidablePred WellFormed
  | drop columns => inferInstanceAs (Decidable (AreColumns columns))
  | filter e => inferInstanceAs (Decidable e.WellFormed)
  | groupBy columns => inferInstanceAs (Decidable (AreColumns columns))
  | join leftTable leftColumn rightTable rightColumn => inferInstanceAs (Decidable
    (IsName leftTable ∧ IsName leftColumn ∧ IsName rightTable ∧ IsName rightColumn))
  | mutate column e => inferInstanceAs (Decidable (IsName column ∧ e.WellFormed))
  | notify signal => inferInstanceAs (Decidable (IsName signal))
  | read source => inferInstanceAs (Decidable (IsName source))
  | select columns => inferInstanceAs (Decidable (AreColumns columns))
  | sort columns _ => inferInstanceAs (Decidable (AreColumns columns))
  | summarize _ column => inferInstanceAs (Decidable (IsName column))
  | ungroup => .isTrue trivial
  | unique columns => inferInstanceAs (Decidable (AreColumns columns))

variable {whole json : Json} {node : Node whole} {stage : Stage}

theorem wellFormed_of_exprField {key : String} {position : Nat} {e : Expr}
    (read : exprField node key position = .ok e) : e.WellFormed := by
  obtain ⟨part, _, read⟩ := bind_eq_ok.mp read
  exact Expr.wellFormed_of_ofJson _ (under_eq_ok.mp read)

theorem wellFormed_of_ofNode (read : ofNode node = .ok stage) : stage.WellFormed := by
  have columns {make : List String → Stage} (formed : ∀ names, AreColumns names → (make names).WellFormed)
      (read : (do return make (← node.columnsField "columns" 0)) = .ok stage) : stage.WellFormed := by
    obtain ⟨names, named, read⟩ := bind_eq_ok.mp read
    obtain rfl := pure_eq_ok.mp read
    exact formed names (Node.areColumns_of_columnsField named)
  have name {make : String → Stage} {key : String} (formed : ∀ name, IsName name → (make name).WellFormed)
      (read : (do return make (← node.nameField key 0)) = .ok stage) : stage.WellFormed := by
    obtain ⟨name, named, read⟩ := bind_eq_ok.mp read
    obtain rfl := pure_eq_ok.mp read
    exact formed name (Node.isName_of_nameField named)
  unfold ofNode at read
  split at read
  · exact columns (fun _ => id) read
  · obtain ⟨e, inner, read⟩ := bind_eq_ok.mp read
    obtain rfl := pure_eq_ok.mp read
    exact wellFormed_of_exprField inner
  · exact columns (fun _ => id) read
  · exact columns (fun _ => id) read
  · obtain ⟨_, leftTable, read⟩ := bind_eq_ok.mp read
    obtain ⟨_, leftColumn, read⟩ := bind_eq_ok.mp read
    obtain ⟨_, rightTable, read⟩ := bind_eq_ok.mp read
    obtain ⟨_, rightColumn, read⟩ := bind_eq_ok.mp read
    obtain rfl := pure_eq_ok.mp read
    exact ⟨Node.isName_of_nameField leftTable, Node.isName_of_nameField leftColumn,
      Node.isName_of_nameField rightTable, Node.isName_of_nameField rightColumn⟩
  · obtain ⟨column, named, read⟩ := bind_eq_ok.mp read
    obtain ⟨e, inner, read⟩ := bind_eq_ok.mp read
    obtain rfl := pure_eq_ok.mp read
    exact ⟨Node.isName_of_nameField named, wellFormed_of_exprField inner⟩
  · exact name (fun _ => id) read
  · exact name (fun _ => id) read
  · exact columns (fun _ => id) read
  · obtain ⟨names, named, read⟩ := bind_eq_ok.mp read
    obtain ⟨_, _, read⟩ := bind_eq_ok.mp read
    obtain rfl := pure_eq_ok.mp read
    exact Node.areColumns_of_columnsField named
  · obtain ⟨_, _, read⟩ := bind_eq_ok.mp read
    obtain ⟨column, named, read⟩ := bind_eq_ok.mp read
    obtain rfl := pure_eq_ok.mp read
    exact Node.isName_of_nameField named
  · obtain rfl := pure_eq_ok.mp read
    exact trivial
  · exact columns (fun _ => id) read
  · cases read

theorem ofJson_eq_ok : ofJson json = .ok stage ↔
    ∃ node, Node.ofJson json = .ok node ∧ node.family = Node.stageFamily ∧ ofNode node = .ok stage := by
  rw [ofJson, bind_eq_ok]
  refine exists_congr fun node => and_congr_right fun _ => ?_
  by_cases family : node.family = Node.stageFamily
  · simp [family]
  · simp [family, Problem.here]

theorem wellFormed_of_ofJson (read : ofJson json = .ok stage) : stage.WellFormed := by
  obtain ⟨node, _, _, read⟩ := ofJson_eq_ok.mp read
  exact wellFormed_of_ofNode read

end Stage

namespace Pipeline

def WellFormed (p : Pipeline) : Prop := ∀ stage ∈ p.stages, stage.WellFormed

instance : DecidablePred WellFormed := fun p =>
  inferInstanceAs (Decidable (∀ stage ∈ p.stages, stage.WellFormed))

variable {name : String} {json : Json} {p : Pipeline}

/-- Where a stage stands counts only for its errors. -/
theorem stagesOfJson_eq_ok {index : Nat} {items : List Json} {stages : List Stage} :
    stagesOfJson name index items = .ok stages ↔ items.map Stage.ofJson = stages.map .ok := by
  induction items generalizing index stages with
  | nil => cases stages <;> simp [stagesOfJson]
  | cons item rest ih =>
    simp only [stagesOfJson, bind_eq_ok, under_eq_ok, pure_eq_ok, ih, List.map_cons]
    constructor
    · rintro ⟨stage, first, stages, later, rfl⟩
      rw [first, later, List.map_cons]
    · intro same
      obtain ⟨stage, stages, rfl, first, later⟩ := List.map_eq_cons_iff.mp same.symm
      exact ⟨stage, first.symm, stages, later.symm, rfl⟩

theorem ofNamedJson_eq_ok : ofNamedJson name json = .ok p ↔
    ∃ items, json = .array items ∧ items.map Stage.ofJson = p.stages.map .ok := by
  cases json with
  | array items =>
    simp only [ofNamedJson, map_eq_ok, stagesOfJson_eq_ok, Json.array.injEq, exists_eq_left']
    constructor
    · rintro ⟨stages, read, rfl⟩
      exact read
    · intro read
      exact ⟨p.stages, read, rfl⟩
  | _ => simp [ofNamedJson, Problem.at]

theorem wellFormed_of_ofNamedJson (accepted : ofNamedJson name json = .ok p) : p.WellFormed := by
  obtain ⟨items, rfl, read⟩ := ofNamedJson_eq_ok.mp accepted
  intro stage here
  have found : .ok stage ∈ items.map Stage.ofJson := by
    rw [read]
    exact List.mem_map_of_mem here
  obtain ⟨item, _, read⟩ := List.mem_map.mp found
  exact Stage.wellFormed_of_ofJson read

end Pipeline

namespace Program

def WellFormed (p : Program) : Prop := ∀ pipeline ∈ p.pipelines.values, pipeline.WellFormed

instance : DecidablePred WellFormed := fun p =>
  inferInstanceAs (Decidable (∀ pipeline ∈ p.pipelines.values, pipeline.WellFormed))

variable {json : Json} {p : Program}

theorem entriesOfJson_eq_ok {fields : List (String × Json)} {entries : List (String × Pipeline)} :
    entriesOfJson fields = .ok entries ↔
      fields.map (fun field => (field.1, Pipeline.ofNamedJson field.1 field.2)) =
        entries.map fun entry => (entry.1, .ok entry.2) := by
  induction fields generalizing entries with
  | nil => cases entries <;> simp [entriesOfJson]
  | cons field rest ih =>
    simp only [entriesOfJson, bind_eq_ok, pure_eq_ok, ih, List.map_cons]
    constructor
    · rintro ⟨pipeline, first, entries, later, rfl⟩
      rw [first, later, List.map_cons]
    · intro same
      obtain ⟨⟨name, pipeline⟩, entries, rfl, first, later⟩ := List.map_eq_cons_iff.mp same.symm
      obtain ⟨rfl, first⟩ := Prod.mk.inj first
      exact ⟨pipeline, first.symm, entries, later.symm, rfl⟩

theorem ofJson_eq_ok : ofJson json = .ok p ↔ ∃ fields entries, json = .object fields ∧
    fields.map (fun field => (field.1, Pipeline.ofNamedJson field.1 field.2)) =
      entries.map (fun entry => (entry.1, .ok entry.2)) ∧ ⟨OrderedMap.ofList entries⟩ = p := by
  cases json with
  | object fields =>
    simp only [ofJson, map_eq_ok, entriesOfJson_eq_ok, Json.object.injEq, exists_and_left,
      exists_eq_left']
  | _ => simp [ofJson, Problem.here]

theorem wellFormed_of_ofJson (accepted : ofJson json = .ok p) : p.WellFormed := by
  obtain ⟨fields, entries, rfl, read, rfl⟩ := ofJson_eq_ok.mp accepted
  intro pipeline here
  obtain ⟨entry, there, rfl⟩ := List.mem_map.mp here
  have found : (entry.1, .ok entry.2) ∈
      fields.map fun field => (field.1, Pipeline.ofNamedJson field.1 field.2) := by
    rw [read]
    exact List.mem_map_of_mem (OrderedMap.mem_of_mem_ofList there)
  obtain ⟨field, _, same⟩ := List.mem_map.mp found
  exact Pipeline.wellFormed_of_ofNamedJson (Prod.mk.inj same).2

end Program

end Tableflow
