import Tableflow.Document.Located
import Tableflow.Proofs.ErrorPaths

/-!
Readers that carry the path down and readers that leave its steps to their callers agree. They accept
the same documents, and of any other they report the same problem at the same path.
-/

namespace Tableflow

open Located

/-! ### Errors and their places -/

/-- Readers agree if they agree step by step. -/
theorem bind_eq_mapError {α β : Type} {place : Malformed → Located} {first : Except Located α}
    {first' : Except Malformed α} {next : α → Except Located β} {next' : α → Except Malformed β}
    (begun : first = first'.mapError place) (later : ∀ a, next a = (next' a).mapError place) :
    first >>= next = (first' >>= next').mapError place := by
  subst begun
  cases first' with
  | ok a => exact later a
  | error => rfl

namespace Malformed

/-- The error as reported from a value at the path. -/
def locatedIn (path : String) (m : Malformed) : Located :=
  let text := m.path.foldl below path
  ⟨if text = "" then "<root>" else text, m.problem⟩

def located (m : Malformed) : Located := ⟨m.pathText, m.problem⟩

theorem located_singleton (step : String) (problem : Problem) :
    located ⟨[step], problem⟩ = ⟨if step = "" then "<root>" else step, problem⟩ := by
  simp only [located, pathText, String.intercalate_singleton]

theorem foldl_below {path : String} (shown : path ≠ "") (steps : List String) :
    steps.foldl below path = ".".intercalate (path :: steps) := by
  induction steps generalizing path with
  | nil => rw [List.foldl_nil, String.intercalate_singleton]
  | cons step rest ih =>
    have joined : below path step = path ++ "." ++ step := if_neg shown
    have longer : path ++ "." ++ step ≠ "" := by simp
    rw [List.foldl_cons, joined, ih longer]
    cases rest with
    | nil => simp only [String.intercalate_singleton, String.intercalate_cons_cons]
    | cons next rest => simp only [String.intercalate_cons_cons, String.append_assoc]

theorem locatedIn_of_shown {step : String} (shown : step ≠ "") (m : Malformed) :
    m.locatedIn step = located { m with path := step :: m.path } := by
  simp only [locatedIn, located, pathText, foldl_below shown]

theorem locatedIn_root {m : Malformed} (known : ¬ m.Astray) : m.locatedIn "" = m.located := by
  obtain ⟨path, problem⟩ := m
  cases path with
  | nil => rfl
  | cons step rest =>
    have named : Node.IsKey step := by
      by_contra unknown
      exact known ⟨step, rfl, unknown⟩
    exact locatedIn_of_shown named.ne_empty ⟨rest, problem⟩

variable {α β : Type} {path key : String}

/-- What a reader with the path at hand makes of a value there. -/
abbrev placed (path : String) (outcome : Except Malformed α) : Except Located α :=
  outcome.mapError (locatedIn path)

theorem placed_here (problem : Problem) :
    placed path (problem.here : Except Malformed α) = fail path problem := rfl

theorem placed_under (outcome : Except Malformed α) :
    placed path (under key outcome) = placed (below path key) outcome := by
  cases outcome <;> rfl

theorem placed_root {outcome : Except Malformed α} (known : Avoids Astray outcome) :
    placed "" outcome = outcome.mapError located := by
  cases outcome with
  | ok => rfl
  | error m => exact congrArg Except.error (locatedIn_root (known m rfl))

theorem placed_of_shown (shown : key ≠ "") (outcome : Except Malformed α) :
    placed key outcome = (under key outcome).mapError located := by
  cases outcome with
  | ok => rfl
  | error m => exact congrArg Except.error (locatedIn_of_shown shown m)

end Malformed

open Malformed

/-! ### Nodes and expressions -/

namespace PlacedNode

variable {whole : Json} {node : PlacedNode whole} {key : String} {position : Nat}

theorem read_eq (json : Json) (path : String) :
    read json path = placed path (Node.ofJson json) >>= fun node => .ok ⟨node, path⟩ := by
  cases json with
  | object fields =>
    cases family : (fields.lookup "family").bind Json.string? with
    | none =>
      simp only [read, Node.ofJson, family]
      rfl
    | some family' =>
      cases name : (fields.lookup (Node.nameKey family')).bind Json.string? <;>
        simp only [read, Node.ofJson, family, name] <;> rfl
  | array items =>
    rcases items with _ | ⟨first, _ | ⟨second, rest⟩⟩
    · rfl
    · cases first <;> rfl
    · cases first with
      | string family => cases second <;> rfl
      | _ => rfl
  | _ => rfl

theorem required_eq : node.required key position = placed node.path (node.field key position) := by
  unfold required Node.field
  cases node.field? key position <;> rfl

theorem string_eq : node.string key position = placed node.path (node.nameField key position) := by
  refine bind_eq_mapError required_eq fun ⟨part, _⟩ => ?_
  cases part with
  | string s =>
    show (if _ then _ else _) = placed _ (if _ then _ else _)
    split <;> rfl
  | _ => rfl

theorem columns_eq : node.columns key position = placed node.path (node.columnsField key position) := by
  refine bind_eq_mapError required_eq fun ⟨part, _⟩ => ?_
  have some (columns : List String) :
      (if columns.isEmpty then fail (below node.path key) (.noColumns node.name) else return columns) =
        placed node.path
          (if columns.isEmpty then (Problem.noColumns node.name).at key else return columns) := by
    split <;> rfl
  cases part with
  | string s => exact some _
  | array items =>
    dsimp only
    cases Node.stringItems? items with
    | none => rfl
    | some names => exact some _
  | _ => rfl

end PlacedNode

theorem Cell.readAt_of_ok {json : Json} {cell : Cell} (read : ofJson json = .ok cell) (path : String) :
    readAt json path = pure cell := by
  unfold readAt
  rw [read]
  rfl

theorem Cell.readAt_of_error {json : Json} {problem : Problem} (failed : ofJson json = .error problem)
    (path : String) : readAt json path = fail path problem := by
  unfold readAt
  rw [failed]

namespace Expr

variable {whole : Json} {node : PlacedNode whole}

theorem leafAt_eq : leafAt node = placed node.path (leafOfNode node.toNode) := by
  have text : leafAt.textAt node (below node.path "value") =
      placed node.path (leafOfNode.textLeaf node.toNode) := by
    refine bind_eq_mapError PlacedNode.required_eq fun ⟨part, _⟩ => ?_
    cases part <;> rfl
  unfold leafAt leafOfNode
  dsimp only
  generalize node.name = name
  split
  case h_1 => rfl
  case h_2 => rfl
  case h_3 => exact bind_eq_mapError PlacedNode.string_eq fun _ => rfl
  case h_4 =>
    refine bind_eq_mapError PlacedNode.required_eq fun ⟨part, _⟩ => ?_
    cases part <;> rfl
  case h_5 =>
    refine bind_eq_mapError PlacedNode.required_eq fun part => ?_
    cases part.val.number? with
    | none => rfl
    | some x =>
      show (if _ then _ else _) = placed _ (if _ then _ else _)
      split <;> rfl
  case h_6 => exact text
  case h_7 => exact text
  case h_8 =>
    refine bind_eq_mapError PlacedNode.required_eq fun part => ?_
    cases read : Cell.ofJson part.val with
    | error problem =>
      rw [Cell.readAt_of_error read]
      rfl
    | ok cell =>
      rw [Cell.readAt_of_ok read, pure_bind]
      dsimp only
      cases cell.toDatetime <;> rfl
  case h_9 => simp only [placed_here, *]

theorem bind_operand {β : Type} {next : Expr → Except Located β} {next' : Expr → Except Malformed β}
    (parts : ∀ part : Json.Part whole, ∀ path, readAt part.val path = placed path (ofJson part.val))
    (key : String) (position : Nat) (later : ∀ e, next e = placed node.path (next' e)) :
    (node.required key position >>= fun part => readAt part.val (below node.path key) >>= next) =
      placed node.path
        (node.field key position >>= fun part => under key (ofJson part.val) >>= next') :=
  bind_eq_mapError PlacedNode.required_eq fun part =>
    bind_eq_mapError ((parts part _).trans (placed_under _).symm) later

theorem readAt_eq (json : Json) (path : String) : readAt json path = placed path (ofJson json) := by
  have parts (part : Json.Part json) (path : String) :
      readAt part.val path = placed path (ofJson part.val) := by
    have smaller := part.property
    exact readAt_eq part.val path
  rw [readAt, ofJson, PlacedNode.read_eq, bind_assoc]
  refine bind_eq_mapError rfl fun node => ?_
  show (if _ then _ else _) = placed _ (if _ then _ else _)
  by_cases leaf : node.family = Node.valueFamily
  · rw [if_pos leaf, if_pos leaf]
    exact leafAt_eq
  by_cases operator : node.family = Node.operatorFamily
  · rw [if_neg leaf, if_neg leaf, if_pos operator, if_pos operator]
    cases UnaryOp.ofName? node.name with
    | some op => exact bind_operand parts "arg" 0 fun _ => rfl
    | none =>
      cases BinaryOp.ofName? node.name with
      | some op =>
        exact bind_operand parts "left" 0 fun _ => bind_operand parts "right" 1 fun _ => rfl
      | none =>
        by_cases choice : node.name = "ifElse"
        · simp only [if_pos choice]
          exact bind_operand parts "left" 0 fun _ => bind_operand parts "middle" 1 fun _ =>
            bind_operand parts "right" 2 fun _ => rfl
        · simp only [if_neg choice]
          rfl
  · rw [if_neg leaf, if_neg leaf, if_neg operator, if_neg operator]
    rfl
termination_by sizeOf json

end Expr

theorem PlacedNode.expr_eq {whole : Json} {node : PlacedNode whole} {key : String} {position : Nat} :
    node.expr key position = placed node.path (Stage.exprField node.toNode key position) :=
  bind_eq_mapError required_eq fun part => (Expr.readAt_eq part.val _).trans (placed_under _).symm

/-! ### Stages, pipelines and programs -/

namespace Stage

variable {whole : Json} (node : Node whole) (path : String)

theorem descendingAt_eq :
    descendingAt ⟨node, path⟩ path = placed path (descendingField node) := by
  unfold descendingAt descendingField
  cases (node.field? "descending" 1).map Subtype.val with
  | none => rfl
  | some part => cases part <;> rfl

theorem summaryAt_eq : summaryAt ⟨node, path⟩ path = placed path (summaryField node) := by
  refine bind_eq_mapError PlacedNode.string_eq fun name => ?_
  cases Summary.ofName? name <;> rfl

theorem kindAt_eq : kindAt ⟨node, path⟩ path = placed path (ofNode node) := by
  unfold kindAt ofNode
  dsimp only
  generalize node.name = name
  split
  case h_1 => exact bind_eq_mapError PlacedNode.columns_eq fun _ => rfl
  case h_2 => exact bind_eq_mapError PlacedNode.expr_eq fun _ => rfl
  case h_3 => exact bind_eq_mapError PlacedNode.columns_eq fun _ => rfl
  case h_4 => exact bind_eq_mapError PlacedNode.columns_eq fun _ => rfl
  case h_5 =>
    exact bind_eq_mapError PlacedNode.string_eq fun _ => bind_eq_mapError PlacedNode.string_eq fun _ =>
      bind_eq_mapError PlacedNode.string_eq fun _ => bind_eq_mapError PlacedNode.string_eq fun _ => rfl
  case h_6 =>
    exact bind_eq_mapError PlacedNode.string_eq fun _ => bind_eq_mapError PlacedNode.expr_eq fun _ => rfl
  case h_7 => exact bind_eq_mapError PlacedNode.string_eq fun _ => rfl
  case h_8 => exact bind_eq_mapError PlacedNode.string_eq fun _ => rfl
  case h_9 => exact bind_eq_mapError PlacedNode.columns_eq fun _ => rfl
  case h_10 =>
    exact bind_eq_mapError PlacedNode.columns_eq fun _ =>
      bind_eq_mapError (descendingAt_eq node path) fun _ => rfl
  case h_11 =>
    exact bind_eq_mapError (summaryAt_eq node path) fun _ =>
      bind_eq_mapError PlacedNode.string_eq fun _ => rfl
  case h_12 => rfl
  case h_13 => exact bind_eq_mapError PlacedNode.columns_eq fun _ => rfl
  case h_14 => simp only [placed_here, *]

theorem readAt_eq (json : Json) (path : String) : readAt json path = placed path (ofJson json) := by
  rw [readAt, ofJson, PlacedNode.read_eq, bind_assoc]
  refine bind_eq_mapError rfl fun node => ?_
  show (if _ then _ else _) = placed _ (if _ then _ else _)
  by_cases stage : node.family = Node.stageFamily
  · rw [if_pos stage, if_pos stage]
    exact kindAt_eq node path
  · rw [if_neg stage, if_neg stage]
    rfl

end Stage

namespace Pipeline

theorem stagesAt_eq (path : String) (index : Nat) (items : List Json) :
    stagesAt path index items = (stagesOfJson path index items).mapError located := by
  induction items generalizing index with
  | nil => rfl
  | cons json rest ih =>
    have shown : s!"{path}[{index}]" ≠ "" := by simp
    refine bind_eq_mapError ((Stage.readAt_eq json _).trans (placed_of_shown shown _)) fun stage => ?_
    exact bind_eq_mapError (ih (index + 1)) fun _ => rfl

theorem readAt_eq (json : Json) (name : String) :
    readAt json name = (ofNamedJson name json).mapError located := by
  cases json with
  | array items =>
    rw [readAt, ofNamedJson, stagesAt_eq]
    cases stagesOfJson name 0 items <;> rfl
  | _ => exact congrArg Except.error (located_singleton name .notPipeline).symm

end Pipeline

namespace Program

theorem entriesAt_eq (fields : List (String × Json)) :
    entriesAt fields = (entriesOfJson fields).mapError located := by
  induction fields with
  | nil => rfl
  | cons field rest ih =>
    refine bind_eq_mapError (Pipeline.readAt_eq field.2 field.1) fun pipeline => ?_
    exact bind_eq_mapError ih fun _ => rfl

theorem readAt_eq (json : Json) : readAt json "" = (ofJson json).mapError located := by
  cases json with
  | object fields =>
    rw [readAt, ofJson, entriesAt_eq]
    cases entriesOfJson fields <;> rfl
  | _ => rfl

end Program

namespace Table

theorem fieldsAt_eq (path : String) (fields : List (String × Json)) :
    fieldsAt path fields = placed path (entriesOfJson fields) := by
  induction fields with
  | nil => rfl
  | cons field rest ih =>
    obtain ⟨name, json⟩ := field
    cases read : Cell.ofJson json with
    | error problem =>
      rw [fieldsAt, Cell.readAt_of_error read, entriesOfJson, read]
      rfl
    | ok cell =>
      rw [fieldsAt, Cell.readAt_of_ok read, pure_bind, ih, entriesOfJson, read]
      dsimp only
      cases entriesOfJson rest <;> rfl

theorem rowAt_eq (json : Json) (path : String) : rowAt json path = placed path (rowOfJson json) := by
  cases json with
  | object fields =>
    rw [rowAt, rowOfJson, fieldsAt_eq]
    cases entriesOfJson fields <;> rfl
  | _ => rfl

theorem rowsAt_eq (index : Nat) (items : List Json) :
    rowsAt index items = (rowsOfJson index items).mapError located := by
  induction items generalizing index with
  | nil => rfl
  | cons json rest ih =>
    have shown : s!"[{index}]" ≠ "" := by simp
    refine bind_eq_mapError ((rowAt_eq json _).trans (placed_of_shown shown _)) fun row => ?_
    exact bind_eq_mapError (ih (index + 1)) fun _ => rfl

end Table

/-- Both kinds of readers accept the same documents as the same values, and their errors have the same
problem and the same path. -/
theorem readers_agree (json : Json) :
    Expr.readAt json "" = (Expr.ofJson json).mapError located ∧
    Stage.readAt json "" = (Stage.ofJson json).mapError located ∧
    Pipeline.readAt json "" = (Pipeline.ofJson json).mapError located ∧
    Program.readAt json "" = (Program.ofJson json).mapError located ∧
    ∀ items, Table.rowsAt 0 items = (Table.rowsOfJson 0 items).mapError located := by
  refine ⟨?_, ?_, Pipeline.readAt_eq json "", Program.readAt_eq json, Table.rowsAt_eq 0⟩
  · exact (Expr.readAt_eq json "").trans (placed_root (Expr.avoids_ofJson json))
  · exact (Stage.readAt_eq json "").trans (placed_root (Stage.avoids_ofJson json))

end Tableflow
