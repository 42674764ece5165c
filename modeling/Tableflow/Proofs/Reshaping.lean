import Tableflow.Proofs.RoundTrip

/-!
The two shapes of nodes. An object may be written as an array of its fields in order, and a list of
columns as one string with commas, at any depth and in any mixture; what is read stays the same, and
so does every error with its path.
-/

namespace Tableflow

/-- What is expected in a place of a document: a node, a list of columns, or neither. -/
inductive Slot where
  | node | columns | scalar
  deriving DecidableEq

def Json.IsCompound : Json → Prop
  | .array _ => True
  | .object _ => True
  | _ => False

namespace Node

/-! ### Places of a document -/

def stageLayout : String → List (String × Slot)
  | "drop" => [("columns", .columns)]
  | "filter" => [("expr", .node)]
  | "groupBy" => [("columns", .columns)]
  | "group" => [("columns", .columns)]
  | "join" => [("leftTable", .scalar), ("leftColumn", .scalar), ("rightTable", .scalar),
      ("rightColumn", .scalar)]
  | "mutate" => [("column", .scalar), ("expr", .node)]
  | "notify" => [("signal", .scalar)]
  | "read" => [("source", .scalar)]
  | "select" => [("columns", .columns)]
  | "sort" => [("columns", .columns), ("descending", .scalar)]
  | "summarize" => [("func", .scalar), ("column", .scalar)]
  | "unique" => [("columns", .columns)]
  | _ => []

/-- The fields of a node in the order of their positions. -/
def layout (family name : String) : List (String × Slot) :=
  if family = valueFamily then
    if name ∈ ["column", "logical", "number", "text", "string", "datetime"] then [("value", .scalar)]
    else []
  else if family = operatorFamily then
    if (UnaryOp.ofName? name).isSome then [("arg", .node)]
    else if (BinaryOp.ofName? name).isSome then [("left", .node), ("right", .node)]
    else if name = "ifElse" then [("left", .node), ("middle", .node), ("right", .node)]
    else []
  else if family = stageFamily then stageLayout name
  else []

/-- Family and name of an object, if it has both. -/
def header? (fields : List (String × Json)) : Option (String × String) := do
  let family ← (fields.lookup "family").bind Json.string?
  let name ← (fields.lookup (nameKey family)).bind Json.string?
  return (family, name)

def slotUnder (fields : List (String × Json)) (key : String) : Slot :=
  match header? fields with
  | some (family, name) => ((layout family name).lookup key).getD .scalar
  | none => .scalar

def slotAt : List Json → Nat → Slot
  | .string family :: .string name :: _, position + 2 =>
    (((layout family name)[position]?).map Prod.snd).getD .scalar
  | _, _ => .scalar

/-- The second document is the first with some nodes written as arrays, where `allowed` lets them, and
some lists of columns as strings. The fields that a node written as an array has are the first ones of
its layout. Where neither a node nor columns are expected, an object or array can become any other,
since it is not looked into. -/
inductive Reshaped (allowed : Slot → Prop) : Slot → Json → Json → Prop where
  | refl (slot : Slot) (json : Json) : Reshaped allowed slot json json
  | scalar {a b : Json} : a.IsCompound → b.IsCompound → Reshaped allowed .scalar a b
  | joined {names : List String} : (∀ name ∈ names, ',' ∉ name.toList) →
    Reshaped allowed .columns (.array (names.map .string)) (.string (",".intercalate names))
  | list {items items' : List Json} : items.length = items'.length →
    (∀ (i : Nat) a b, items[i]? = some a → items'[i]? = some b → Reshaped allowed .scalar a b) →
    Reshaped allowed .columns (.array items) (.array items')
  | unlisted {fields fields' : List (String × Json)} :
    Reshaped allowed .columns (.object fields) (.object fields')
  | object {fields fields' : List (String × Json)} :
    (∀ key, fields.lookup key = none ↔ fields'.lookup key = none) →
    (∀ key a b, fields.lookup key = some a → fields'.lookup key = some b →
      Reshaped allowed (slotUnder fields key) a b) →
    Reshaped allowed .node (.object fields) (.object fields')
  | array {items items' : List Json} : items.length = items'.length →
    (∀ (i : Nat) a b, items[i]? = some a → items'[i]? = some b → Reshaped allowed (slotAt items i) a b) →
    Reshaped allowed .node (.array items) (.array items')
  | positional {slot : Slot} {fields : List (String × Json)} {values : List Json} {family name : String} :
    allowed slot → header? fields = some (family, name) →
    values.length ≤ (layout family name).length →
    (∀ (i : Nat) key inner, (layout family name)[i]? = some (key, inner) →
      (fields.lookup key = none ↔ values[i]? = none)) →
    (∀ (i : Nat) key inner a b, (layout family name)[i]? = some (key, inner) →
      fields.lookup key = some a → values[i]? = some b → Reshaped allowed inner a b) →
    Reshaped allowed slot (.object fields) (.array (.string family :: .string name :: values))

/-! ### Fields read one by one -/

def namesOf : Json → Except Problem (List String)
  | .string s => .ok ((splitCommas s.toList).map String.ofList)
  | .array items =>
    match stringItems? items with
    | some names => .ok names
    | none => .error .columnNotString
  | _ => .error .notColumns

def columnsOf (json : Json) : Except Problem (List String) :=
  (namesOf json).map fun names => (names.map Text.trim).filter fun name => name ≠ ""

variable {whole other : Json} {node : Node whole} {node' : Node other} {key : String}
  {position : Nat}

/-- The columns for the node called `name`, which needs some. -/
def someColumnsOf (name key : String) (json : Json) : Except Malformed (List String) :=
  match columnsOf json with
  | .error problem => problem.at key
  | .ok columns => if columns.isEmpty then (Problem.noColumns name).at key else return columns

theorem columnsField_eq : node.columnsField key position =
    node.field key position >>= fun part => someColumnsOf node.name key part.val := by
  unfold columnsField
  congr 1
  funext ⟨part, _⟩
  cases part with
  | array items =>
    simp only [someColumnsOf, columnsOf, namesOf]
    cases stringItems? items <;> rfl
  | _ => rfl

/-- The two values are the same to whoever reads a place of the kind. -/
def Alike : Slot → Json → Json → Prop
  | .node, a, b => Expr.ofJson a = Expr.ofJson b ∧ Stage.ofJson a = Stage.ofJson b
  | .columns, a, b => columnsOf a = columnsOf b
  | .scalar, a, b => a = b ∨ a.IsCompound ∧ b.IsCompound

theorem alike_refl (slot : Slot) (json : Json) : Alike slot json json := by
  cases slot with
  | node => exact ⟨rfl, rfl⟩
  | columns => exact rfl
  | scalar => exact .inl rfl

theorem field_of_absent (absent : node.fields.get? key position = none) :
    node.field key position = (Problem.fieldRequired node.name key).here := by
  have none : node.field? key position = none := by
    unfold field?
    split
    · rename_i part found
      cases absent.symm.trans found
    · rfl
  rw [field, none]

theorem field_of_found {part : Json} (found : node.fields.get? key position = some part) :
    node.field key position = .ok ⟨part, node.within key position part found⟩ := field_eq_ok.mpr found

theorem field_bind_congr {α : Type} {R : Json → Json → Prop}
    {f : Json.Part whole → Except Malformed α} {g : Json.Part other → Except Malformed α}
    (named : node'.name = node.name)
    (parts : Option.Rel R (node.fields.get? key position) (node'.fields.get? key position))
    (agree : ∀ a b smaller smaller', R a b → f ⟨a, smaller⟩ = g ⟨b, smaller'⟩) :
    (node.field key position >>= f) = node'.field key position >>= g := by
  cases found : node.fields.get? key position with
  | none =>
    rw [found] at parts
    cases found' : node'.fields.get? key position with
    | none => rw [field_of_absent found, field_of_absent found', named]; rfl
    | some b => rw [found'] at parts; cases parts
  | some a =>
    rw [found] at parts
    cases found' : node'.fields.get? key position with
    | none => rw [found'] at parts; cases parts
    | some b =>
      rw [found'] at parts
      cases parts with
      | some related =>
        rw [field_of_found found, field_of_found found']
        exact agree a b _ _ related

theorem nameField_congr (named : node'.name = node.name)
    (parts : Option.Rel (Alike .scalar) (node.fields.get? key position)
      (node'.fields.get? key position)) :
    node.nameField key position = node'.nameField key position := by
  apply field_bind_congr named parts
  rintro a b _ _ (rfl | ⟨first, second⟩)
  · rfl
  · cases a <;> cases first <;> cases b <;> cases second <;> rfl

theorem columnsField_congr (named : node'.name = node.name)
    (parts : Option.Rel (Alike .columns) (node.fields.get? key position)
      (node'.fields.get? key position)) :
    node.columnsField key position = node'.columnsField key position := by
  rw [columnsField_eq, columnsField_eq, named]
  apply field_bind_congr named parts
  intro a b _ _ same
  rw [someColumnsOf, someColumnsOf, show columnsOf a = columnsOf b from same]

theorem exprField_congr (named : node'.name = node.name)
    (parts : Option.Rel (Alike .node) (node.fields.get? key position)
      (node'.fields.get? key position)) :
    Stage.exprField node key position = Stage.exprField node' key position := by
  apply field_bind_congr named parts
  rintro a b _ _ ⟨same, _⟩
  rw [same]

theorem map_field? : (node.field? key position).map Subtype.val = node.fields.get? key position := by
  unfold field?
  split
  · rename_i part found
    exact found.symm
  · rename_i absent
    exact absent.symm

theorem descendingField_congr
    (parts : Option.Rel (Alike .scalar) (node.fields.get? "descending" 1)
      (node'.fields.get? "descending" 1)) :
    Stage.descendingField node = Stage.descendingField node' := by
  unfold Stage.descendingField
  rw [map_field?, map_field?]
  generalize node.fields.get? "descending" 1 = first at parts
  generalize node'.fields.get? "descending" 1 = second at parts
  cases parts with
  | none => rfl
  | some alike =>
    rcases alike with rfl | ⟨compound, compound'⟩
    · rfl
    · rename_i a b
      cases a <;> cases compound <;> cases b <;> cases compound' <;> rfl

/-! ### Nodes read field by field -/

/-- Nodes of one family and name whose fields are alike, place by place. -/
structure Matches (node : Node whole) (node' : Node other) : Prop where
  family : node'.family = node.family
  name : node'.name = node.name
  parts : ∀ i key slot, (layout node.family node.name)[i]? = some (key, slot) →
    Option.Rel (Alike slot) (node.fields.get? key i) (node'.fields.get? key i)

theorem Matches.leafOfNode (alike : Matches node node') (family : node.family = valueFamily) :
    Expr.leafOfNode node = Expr.leafOfNode node' := by
  have parts := alike.parts 0 "value" .scalar
  rw [family] at parts
  unfold Expr.leafOfNode
  rw [alike.name]
  split
  case h_1 => rfl
  case h_2 => rfl
  case h_3 named => rw [nameField_congr alike.name (parts (by rw [named]; rfl))]
  case h_9 => rfl
  -- the other leaves look at one scalar, and no object or array is one
  all_goals
    rename_i named
    apply field_bind_congr alike.name (parts (by rw [named]; rfl))
    rintro a b _ _ (rfl | ⟨first, second⟩)
    · rfl
    · cases a <;> cases first <;> cases b <;> cases second <;> rfl

theorem Matches.ofNode (alike : Matches node node') (family : node.family = stageFamily) :
    Stage.ofNode node = Stage.ofNode node' := by
  have parts := alike.parts
  rw [family] at parts
  have columns (named : (layout stageFamily node.name)[0]? = some ("columns", .columns)) :
      node.columnsField "columns" 0 = node'.columnsField "columns" 0 :=
    columnsField_congr alike.name (parts 0 _ _ named)
  have name {i : Nat} {key : String} (named : (layout stageFamily node.name)[i]? = some (key, .scalar)) :
      node.nameField key i = node'.nameField key i := nameField_congr alike.name (parts i _ _ named)
  have expr {i : Nat} {key : String} (named : (layout stageFamily node.name)[i]? = some (key, .node)) :
      Stage.exprField node key i = Stage.exprField node' key i :=
    exprField_congr alike.name (parts i _ _ named)
  unfold Stage.ofNode
  rw [alike.name]
  split
  case h_1 named => rw [columns (by rw [named]; rfl)]
  case h_2 named => rw [expr (by rw [named]; rfl)]
  case h_3 named => rw [columns (by rw [named]; rfl)]
  case h_4 named => rw [columns (by rw [named]; rfl)]
  case h_5 named =>
    rw [name (i := 0) (by rw [named]; rfl), name (i := 1) (by rw [named]; rfl),
      name (i := 2) (by rw [named]; rfl), name (i := 3) (by rw [named]; rfl)]
  case h_6 named => rw [name (by rw [named]; rfl), expr (by rw [named]; rfl)]
  case h_7 named => rw [name (by rw [named]; rfl)]
  case h_8 named => rw [name (by rw [named]; rfl)]
  case h_9 named => rw [columns (by rw [named]; rfl)]
  case h_10 named =>
    rw [columns (by rw [named]; rfl), descendingField_congr (parts 1 _ _ (by rw [named]; rfl))]
  case h_11 named =>
    rw [Stage.summaryField, Stage.summaryField, name (i := 0) (by rw [named]; rfl),
      name (i := 1) (by rw [named]; rfl)]
  case h_12 => rfl
  case h_13 named => rw [columns (by rw [named]; rfl)]
  case h_14 => rfl

end Node

namespace Expr

/-- The expression that a node stands for. -/
def ofNode {whole : Json} (node : Node whole) : Except Malformed Expr :=
  if node.family = Node.valueFamily then leafOfNode node
  else if node.family = Node.operatorFamily then
    match UnaryOp.ofName? node.name with
    | some op => do
      let arg ← Stage.exprField node "arg" 0
      return unary op arg
    | none =>
      match BinaryOp.ofName? node.name with
      | some op => do
        let left ← Stage.exprField node "left" 0
        let right ← Stage.exprField node "right" 1
        return binary op left right
      | none =>
        if node.name = "ifElse" then do
          let condition ← Stage.exprField node "left" 0
          let yes ← Stage.exprField node "middle" 1
          let no ← Stage.exprField node "right" 2
          return ifElse condition yes no
        else (Problem.unknownOperator node.name).here
  else (Problem.notExpression node.family).here

theorem ofJson_eq (json : Json) : ofJson json = Node.ofJson json >>= ofNode := by
  rw [ofJson]
  congr 1
  funext node
  by_cases leaf : node.family = Node.valueFamily
  · rw [ofNode, if_pos leaf, if_pos leaf]
  by_cases operator : node.family = Node.operatorFamily
  · rw [ofNode, if_neg leaf, if_neg leaf, if_pos operator, if_pos operator]
    cases UnaryOp.ofName? node.name with
    | some op => simp only [Stage.exprField, bind_assoc]
    | none =>
      cases BinaryOp.ofName? node.name with
      | some op => simp only [Stage.exprField, bind_assoc]
      | none => simp only [Stage.exprField, bind_assoc]
  · rw [ofNode, if_neg leaf, if_neg leaf, if_neg operator, if_neg operator]

end Expr

namespace Node

variable {whole other : Json} {node : Node whole} {node' : Node other}

theorem layout_unary {name : String} {op : UnaryOp} (found : UnaryOp.ofName? name = some op) :
    layout operatorFamily name = [("arg", .node)] := by
  have apart : operatorFamily ≠ valueFamily := by decide
  simp only [layout, if_neg apart, if_true, found, Option.isSome_some]

theorem layout_binary {name : String} {op : BinaryOp} (other : UnaryOp.ofName? name = none)
    (found : BinaryOp.ofName? name = some op) :
    layout operatorFamily name = [("left", .node), ("right", .node)] := by
  have apart : operatorFamily ≠ valueFamily := by decide
  simp [layout, if_neg apart, other, found]

theorem Matches.exprOfNode (alike : Matches node node') : Expr.ofNode node = Expr.ofNode node' := by
  by_cases leaf : node.family = valueFamily
  · rw [Expr.ofNode, Expr.ofNode, alike.family, if_pos leaf, if_pos leaf, alike.leafOfNode leaf]
  by_cases operator : node.family = operatorFamily
  · have parts := alike.parts
    rw [operator] at parts
    have expr {i : Nat} {key : String}
        (named : (layout operatorFamily node.name)[i]? = some (key, .node)) :
        Stage.exprField node key i = Stage.exprField node' key i :=
      exprField_congr alike.name (parts i _ _ named)
    rw [Expr.ofNode, Expr.ofNode, alike.family, alike.name, if_neg leaf, if_neg leaf, if_pos operator,
      if_pos operator]
    cases unary : UnaryOp.ofName? node.name with
    | some op =>
      rw [layout_unary unary] at expr
      simp only [expr (i := 0) rfl]
    | none =>
      cases binary : BinaryOp.ofName? node.name with
      | some op =>
        rw [layout_binary unary binary] at expr
        simp only [expr (i := 0) rfl, expr (i := 1) rfl]
      | none =>
        by_cases choice : node.name = "ifElse"
        · rw [choice] at expr
          simp only [expr (i := 0) rfl, expr (i := 1) rfl, expr (i := 2) rfl]
        · simp only [if_neg choice]
  · rw [Expr.ofNode, Expr.ofNode, alike.family, if_neg leaf, if_neg leaf, if_neg operator,
      if_neg operator]

/-- Both values are nodes that match, or none is one, for the same reason. -/
def ReadAlike (a b : Json) : Prop :=
  (∃ e, ofJson a = .error e ∧ ofJson b = .error e) ∨
    ∃ node node', ofJson a = .ok node ∧ ofJson b = .ok node' ∧ Matches node node'

theorem ReadAlike.alike {a b : Json} (readAlike : ReadAlike a b) : Alike .node a b := by
  show Expr.ofJson a = Expr.ofJson b ∧ Stage.ofJson a = Stage.ofJson b
  rw [Expr.ofJson_eq, Expr.ofJson_eq, Stage.ofJson, Stage.ofJson]
  rcases readAlike with ⟨e, read, read'⟩ | ⟨node, node', read, read', same⟩
  · rw [read, read']
    exact ⟨rfl, rfl⟩
  · rw [read, read']
    refine ⟨same.exprOfNode, ?_⟩
    show (if _ then _ else _) = (if _ then _ else _)
    by_cases stage : node.family = stageFamily
    · rw [same.family, if_pos stage, if_pos stage, same.ofNode stage]
    · rw [same.family, if_neg stage, if_neg stage]

/-! ### Reshaped places -/

theorem splitCommas_eq (cs : List Char) : splitCommas cs = cs.splitOn ',' := by
  induction cs with
  | nil => rfl
  | cons c rest ih =>
    rw [List.splitOn, List.splitOnP_cons_eq_if_modifyHead, ← List.splitOn, ← ih, splitCommas]
    by_cases comma : c = ','
    · simp [comma]
    · obtain ⟨part, parts, split⟩ : ∃ part parts, splitCommas rest = part :: parts := by
        apply List.exists_cons_of_ne_nil
        rw [ih]
        exact List.splitOnP_ne_nil _ _
      simp [comma, split]

theorem columnsOf_joined {names : List String} (plain : ∀ name ∈ names, ',' ∉ name.toList) :
    columnsOf (.array (names.map .string)) = columnsOf (.string (",".intercalate names)) := by
  have listed : namesOf (.array (names.map .string)) = .ok names := by
    simp only [namesOf, stringItems?_map]
  cases names with
  | nil => rfl
  | cons first rest =>
    have split : splitCommas (",".intercalate (first :: rest)).toList =
        (first :: rest).map String.toList := by
      rw [splitCommas_eq, String.toList_intercalate]
      apply List.splitOn_intercalate
      · simpa using plain
      · simp
    have back : ((first :: rest).map String.toList).map String.ofList = first :: rest := by
      simp
    have joined : namesOf (.string (",".intercalate (first :: rest))) = .ok (first :: rest) := by
      rw [namesOf, split, back]
    rw [columnsOf, columnsOf, listed, joined]

theorem stringItems?_congr {items items' : List Json} (length : items.length = items'.length)
    (alike : ∀ (i : Nat) a b, items[i]? = some a → items'[i]? = some b → Alike .scalar a b) :
    stringItems? items = stringItems? items' := by
  induction items generalizing items' with
  | nil =>
    obtain rfl := List.length_eq_zero_iff.mp length.symm
    rfl
  | cons item rest ih =>
    cases items' with
    | nil => simp at length
    | cons item' rest' =>
      have later := ih (by simpa using length) fun i a b found found' => alike (i + 1) a b found found'
      rcases alike 0 item item' rfl rfl with rfl | ⟨first, second⟩
      · cases item <;> simp only [stringItems?, later]
      · cases item <;> cases first <;> cases item' <;> cases second <;> rfl

theorem rel_of_found {R : Json → Json → Prop} {first second : Option Json}
    (absent : first = none ↔ second = none)
    (found : ∀ a b, first = some a → second = some b → R a b) : Option.Rel R first second := by
  cases first with
  | none => rw [absent.mp rfl]; exact .none
  | some a =>
    cases second with
    | none => cases absent.mpr rfl
    | some b => exact .some (found a b rfl rfl)

/-- No key comes twice, and none is that of the family or the name. -/
theorem layout_keys (family name : String) : ((layout family name).map Prod.fst).Nodup ∧
    ∀ key ∈ ["family", "kind", "species"], (layout family name).lookup key = none := by
  have stage : ((stageLayout name).map Prod.fst).Nodup ∧
      ∀ key ∈ ["family", "kind", "species"], (stageLayout name).lookup key = none := by
    unfold stageLayout
    split <;> decide
  unfold layout
  repeat' split
  all_goals first | exact stage | decide

theorem header?_eq_some {fields : List (String × Json)} {family name : String} :
    header? fields = some (family, name) ↔ (fields.lookup "family").bind Json.string? = some family ∧
      (fields.lookup (nameKey family)).bind Json.string? = some name := by
  simp only [header?, Option.bind_eq_bind, Option.bind_eq_some_iff, Option.pure_def,
    Option.some.injEq, Prod.mk.injEq]
  constructor
  · rintro ⟨_, first, _, second, rfl, rfl⟩
    exact ⟨first, second⟩
  · rintro ⟨first, second⟩
    exact ⟨family, first, name, second, rfl, rfl⟩

theorem slotUnder_header {fields : List (String × Json)} {key : String}
    (header : key ∈ ["family", "kind", "species"]) : slotUnder fields key = .scalar := by
  unfold slotUnder
  split
  · rename_i family name _
    rw [(layout_keys family name).2 key header, Option.getD_none]
  · rfl

theorem slotUnder_of_layout {fields : List (String × Json)} {family name key : String} {slot : Slot}
    {i : Nat} (header : header? fields = some (family, name))
    (placed : (layout family name)[i]? = some (key, slot)) : slotUnder fields key = slot := by
  have found := OrderedMap.lookup_eq_some_of_mem (layout_keys family name).1
    (List.mem_of_getElem? placed)
  simp only [slotUnder, header, found, Option.getD_some]

theorem string?_congr {first second : Option Json} (alike : Option.Rel (Alike .scalar) first second) :
    first.bind Json.string? = second.bind Json.string? := by
  cases alike with
  | none => rfl
  | some alike =>
    rcases alike with rfl | ⟨compound, compound'⟩
    · rfl
    · rename_i a b
      cases a <;> cases compound <;> cases b <;> cases compound' <;> rfl

theorem readAlike_object {fields fields' : List (String × Json)}
    (absent : ∀ key, fields.lookup key = none ↔ fields'.lookup key = none)
    (alike : ∀ key a b, fields.lookup key = some a → fields'.lookup key = some b →
      Alike (slotUnder fields key) a b) : ReadAlike (.object fields) (.object fields') := by
  have related (key : String) : Option.Rel (Alike (slotUnder fields key)) (fields.lookup key)
      (fields'.lookup key) := rel_of_found (absent key) (alike key)
  have head (key : String) (header : key ∈ ["family", "kind", "species"]) :
      (fields.lookup key).bind Json.string? = (fields'.lookup key).bind Json.string? :=
    string?_congr (slotUnder_header header ▸ related key)
  have first := head "family" (by decide)
  have second (family : String) := head (nameKey family) (by unfold nameKey; split <;> decide)
  cases family : (fields.lookup "family").bind Json.string? with
  | none =>
    refine .inl ⟨⟨[], .missingField "family"⟩, ?_, ?_⟩
    · simp only [ofJson, family]
      rfl
    · simp only [ofJson, ← first, family]
      rfl
  | some family' =>
    cases name : (fields.lookup (nameKey family')).bind Json.string? with
    | none =>
      refine .inl ⟨⟨[], .missingField (nameKey family')⟩, ?_, ?_⟩
      · simp only [ofJson, family, name]
        rfl
      · simp only [ofJson, ← first, family, ← second, name]
        rfl
    | some name' =>
      obtain ⟨node, read, sameFamily, sameName, named⟩ := ofJson_object family name
      obtain ⟨node', read', sameFamily', sameName', named'⟩ :=
        ofJson_object (first ▸ family) (second family' ▸ name)
      refine .inr ⟨node, node', read, read', ?_, ?_, ?_⟩
      · rw [sameFamily, sameFamily']
      · rw [sameName, sameName']
      · intro i key slot placed
        rw [sameFamily, sameName] at placed
        have header := header?_eq_some.mpr ⟨family, name⟩
        rw [named, named', ← slotUnder_of_layout header placed]
        exact related key

theorem ofJson_array (family name : String) (values : List Json) :
    ∃ node, ofJson (.array (.string family :: .string name :: values)) = .ok node ∧
      node.family = family ∧ node.name = name ∧ node.fields = .positional values :=
  ⟨_, rfl, rfl, rfl, rfl⟩

theorem readAlike_positional {fields : List (String × Json)} {values : List Json}
    {family name : String} (header : header? fields = some (family, name))
    (absent : ∀ (i : Nat) key slot, (layout family name)[i]? = some (key, slot) →
      (fields.lookup key = none ↔ values[i]? = none))
    (alike : ∀ (i : Nat) key slot a b, (layout family name)[i]? = some (key, slot) →
      fields.lookup key = some a → values[i]? = some b → Alike slot a b) :
    ReadAlike (.object fields) (.array (.string family :: .string name :: values)) := by
  obtain ⟨first, second⟩ := header?_eq_some.mp header
  obtain ⟨node, read, sameFamily, sameName, named⟩ := ofJson_object first second
  obtain ⟨node', read', sameFamily', sameName', placed'⟩ := ofJson_array family name values
  refine .inr ⟨node, node', read, read', ?_, ?_, ?_⟩
  · rw [sameFamily, sameFamily']
  · rw [sameName, sameName']
  · intro i key slot placed
    rw [sameFamily, sameName] at placed
    rw [named, placed']
    exact rel_of_found (absent i key slot placed) fun a b => alike i key slot a b placed

theorem ofJson_single (json : Json) : ofJson (.array [json]) = .error ⟨[], .notPositional⟩ := by
  cases json <;> rfl

theorem ofJson_unheaded {a b : Json} {rest : List Json}
    (unheaded : a.string? = none ∨ b.string? = none) :
    ofJson (.array (a :: b :: rest)) = .error ⟨[], .notPositional⟩ := by
  cases a with
  | string family =>
    cases b with
    | string name => simp [Json.string?] at unheaded
    | _ => rfl
  | _ => rfl

theorem string?_eq_some {json : Json} {s : String} : json.string? = some s ↔ json = .string s := by
  cases json <;> simp [Json.string?]

theorem slotAt_header (items : List Json) {i : Nat} (early : i < 2) : slotAt items i = .scalar := by
  unfold slotAt
  split
  · omega
  · rfl

theorem readAlike_array {items items' : List Json} (length : items.length = items'.length)
    (alike : ∀ (i : Nat) a b, items[i]? = some a → items'[i]? = some b → Alike (slotAt items i) a b) :
    ReadAlike (.array items) (.array items') := by
  match items, items', length with
  | [], [], _ => exact .inl ⟨_, rfl, rfl⟩
  | [a], [a'], _ => exact .inl ⟨_, ofJson_single a, ofJson_single a'⟩
  | a :: b :: rest, a' :: b' :: rest', length =>
    have head : a.string? = a'.string? :=
      string?_congr (.some (slotAt_header (a :: b :: rest) Nat.two_pos ▸ alike 0 a a' rfl rfl))
    have next : b.string? = b'.string? :=
      string?_congr (.some (slotAt_header (a :: b :: rest) Nat.one_lt_two ▸ alike 1 b b' rfl rfl))
    cases first : a.string? with
    | none => exact .inl ⟨_, ofJson_unheaded (.inl first), ofJson_unheaded (.inl (head ▸ first))⟩
    | some family =>
      cases second : b.string? with
      | none => exact .inl ⟨_, ofJson_unheaded (.inr second), ofJson_unheaded (.inr (next ▸ second))⟩
      | some name =>
        obtain rfl := string?_eq_some.mp first
        obtain rfl := string?_eq_some.mp second
        obtain rfl := string?_eq_some.mp (head ▸ first)
        obtain rfl := string?_eq_some.mp (next ▸ second)
        obtain ⟨node, read, sameFamily, sameName, placed⟩ := ofJson_array family name rest
        obtain ⟨node', read', sameFamily', sameName', placed'⟩ := ofJson_array family name rest'
        refine .inr ⟨node, node', read, read', ?_, ?_, ?_⟩
        · rw [sameFamily, sameFamily']
        · rw [sameName, sameName']
        · intro i key slot laid
          rw [sameFamily, sameName] at laid
          have here : slotAt (.string family :: .string name :: rest) (i + 2) = slot := by
            simp only [slotAt, laid, Option.map_some, Option.getD_some]
          rw [placed, placed']
          refine rel_of_found ?_ fun a b found found' => here ▸ alike (i + 2) a b found found'
          have lengths : rest.length = rest'.length := by simpa using length
          simp [Fields.get?, lengths]

theorem Reshaped.alike {slot : Slot} {a b : Json} (reshaped : Reshaped (· ≠ .columns) slot a b) :
    Alike slot a b := by
  induction reshaped with
  | refl slot json => exact alike_refl slot json
  | scalar first second => exact .inr ⟨first, second⟩
  | joined plain => exact columnsOf_joined plain
  | list length _ ih =>
    show columnsOf _ = columnsOf _
    simp only [columnsOf, namesOf, stringItems?_congr length ih]
  | unlisted => rfl
  | object absent _ ih => exact (readAlike_object absent ih).alike
  | array length _ ih => exact (readAlike_array length ih).alike
  | @positional slot _ _ _ _ elsewhere header _ absent _ ih =>
    cases slot with
    | node => exact (readAlike_positional header absent ih).alike
    | columns => exact absurd rfl elsewhere
    | scalar => exact .inr ⟨trivial, trivial⟩

end Node

/-- Whatever nodes of a document are written as arrays and whatever lists of columns as strings, the
same expression and the same stage are read from it, or the same error at the same path. An object in
place of columns is not to be taken for a node. -/
theorem shapes_interchangeable {a b : Json} (reshaped : Node.Reshaped (· ≠ .columns) .node a b) :
    Expr.ofJson a = Expr.ofJson b ∧ Stage.ofJson a = Stage.ofJson b := reshaped.alike

/-- A stage whose sum lacks its right operand. -/
def halfSum : Json :=
  .object [("family", .string "@stage"), ("kind", .string "mutate"), ("column", .string "total"),
    ("expr", .object [("family", .string "@op"), ("species", .string "add"),
      ("left", .array [.string "@value", .string "column", .string "price"])])]

def halfSumInArrays : Json :=
  .array [.string "@stage", .string "mutate", .string "total",
    .array [.string "@op", .string "add", .array [.string "@value", .string "column", .string "price"]]]

theorem reshaped_halfSum : Node.Reshaped (· ≠ .columns) .node halfSum halfSumInArrays := by
  refine .positional nofun rfl (by decide) ?_ ?_
  · rintro (_ | _ | i) key slot placed <;> cases placed <;> decide
  · rintro (_ | _ | i) key slot a b placed found found' <;> cases placed <;> cases found <;>
      cases found'
    · exact .refl _ _
    · refine .positional nofun rfl (by decide) ?_ ?_
      · rintro (_ | _ | i) key slot placed <;> cases placed <;> decide
      · rintro (_ | _ | i) key slot a b placed found found' <;> cases placed <;> cases found
        cases found'
        exact .refl _ _

def sorting (columns : Json) : Json :=
  .object [("family", .string "@stage"), ("kind", .string "sort"), ("columns", columns)]

theorem reshaped_sorting :
    Node.Reshaped (· ≠ .columns) .node (sorting (.array [.string "kind", .string " item"]))
      (.array [.string "@stage", .string "sort", .string "kind, item"]) := by
  refine .positional nofun rfl (by decide) ?_ ?_
  · rintro (_ | _ | i) key slot placed <;> cases placed <;> decide
  · rintro (_ | _ | i) key slot a b placed found found' <;> cases placed <;> cases found
    cases found'
    exact @Node.Reshaped.joined _ ["kind", " item"] (by decide)

theorem shapes_interchangeable_halfSum :
    Node.Reshaped (· ≠ .columns) .node halfSum halfSumInArrays ∧
      Stage.ofJson halfSum = Stage.ofJson halfSumInArrays ∧
      Stage.ofJson halfSumInArrays = .error ⟨["expr"], .fieldRequired "add" "right"⟩ ∧
    Node.Reshaped (· ≠ .columns) .node (sorting (.array [.string "kind", .string " item"]))
        (.array [.string "@stage", .string "sort", .string "kind, item"]) ∧
      Stage.ofJson (sorting (.array [.string "kind", .string " item"])) =
        Stage.ofJson (.array [.string "@stage", .string "sort", .string "kind, item"]) ∧
      Stage.ofJson (.array [.string "@stage", .string "sort", .string "kind, item"]) =
        .ok (.sort ["kind", "item"] false) := by
  refine ⟨reshaped_halfSum, (shapes_interchangeable reshaped_halfSum).2, ?_, reshaped_sorting,
    (shapes_interchangeable reshaped_sorting).2, rfl⟩
  have left : Expr.ofJson (.array [.string "@value", .string "column", .string "price"]) =
      .ok (.column "price") := by
    rw [Expr.ofJson_eq]
    rfl
  have sum : Expr.ofJson (.array [.string "@op", .string "add",
      .array [.string "@value", .string "column", .string "price"]]) =
      .error ⟨[], .fieldRequired "add" "right"⟩ := by
    rw [Expr.ofJson_eq]
    show (Malformed.under "left" (Expr.ofJson _) >>= _) = _
    rw [left]
    rfl
  show (Malformed.under "expr" (Expr.ofJson _) >>= _) = _
  rw [sum]
  rfl

/-- In place of columns a node written as an array lists two of them. -/
theorem shapes_differ_under_columns :
    let object := sorting (.object [("family", .string "@stage"), ("kind", .string "ungroup")])
    let array := Json.array [.string "@stage", .string "sort", .array [.string "@stage", .string "ungroup"]]
    Node.Reshaped (fun _ => True) .node object array ∧
      Stage.ofJson object = .error ⟨["columns"], .notColumns⟩ ∧
      Stage.ofJson array = .ok (.sort ["@stage", "ungroup"] false) ∧
      Stage.ofJson object ≠ Stage.ofJson array := by
  refine ⟨?_, rfl, rfl, nofun⟩
  refine .positional trivial rfl (by decide) ?_ ?_
  · rintro (_ | _ | i) key slot placed <;> cases placed <;> decide
  · rintro (_ | _ | i) key slot a b placed found found' <;> cases placed <;> cases found
    cases found'
    refine .positional trivial rfl (by decide) ?_ ?_ <;> rintro i key slot
    · rintro ⟨⟩
    · rintro a b ⟨⟩

end Tableflow
