import Tableflow.Proofs.Lookups
import Tableflow.Proofs.Reshaping

/-!
Where errors point. A program that cannot be read fails at its first faulty pipeline, and there at
the first faulty stage. An expression that cannot be read fails for the same reason wherever it
stands; the path to it then comes before its own.
-/

namespace Tableflow

/-! ### Paths as text -/

/-- A step that can be told from the root by its first character. -/
def Node.IsKey (step : String) : Prop := step.toList.head?.any (· ≠ '<') = true

instance : DecidablePred Node.IsKey := fun step =>
  inferInstanceAs (Decidable (step.toList.head?.any (· ≠ '<') = true))

namespace Node.IsKey

variable {step : String}

theorem ne_empty (known : IsKey step) : step ≠ "" := by
  rintro rfl
  exact absurd known (by decide)

theorem ne_root (known : IsKey step) : step ≠ "<root>" := by
  rintro rfl
  exact absurd known (by decide)

theorem intercalate (known : IsKey step) (rest : List String) :
    IsKey (".".intercalate (step :: rest)) := by
  cases rest with
  | nil => rwa [String.intercalate_singleton]
  | cons next rest =>
    unfold IsKey at known ⊢
    rw [String.intercalate_cons_cons, String.append_assoc, String.toList_append, List.head?_append]
    cases first : step.toList.head? with
    | none => rw [first] at known; cases known
    | some c => rwa [first] at known

end Node.IsKey

namespace Malformed

/-- The path of a node inside of the node at `place`. -/
def textBelow (place path : String) : String :=
  if path = "<root>" then place else place ++ "." ++ path

/-- The outer error has the same problem, and its path leads through `place`. -/
def Relays (m : Malformed) (place : String) (outer : Malformed) : Prop :=
  outer.problem = m.problem ∧ outer.pathText = textBelow place m.pathText

/-- The path begins with something else than the key of a field. -/
def Astray (m : Malformed) : Prop := ∃ step ∈ m.path.head?, ¬ Node.IsKey step

theorem relays_append {m : Malformed} (known : ¬ m.Astray) {steps : List String}
    (shown : ".".intercalate steps ≠ "") :
    m.Relays (".".intercalate steps) ⟨steps ++ m.path, m.problem⟩ := by
  obtain ⟨path, problem⟩ := m
  refine ⟨rfl, ?_⟩
  cases path with
  | nil => simp only [pathText, List.append_nil, if_neg shown, String.intercalate_nil, if_true, textBelow]
  | cons key rest =>
    have named : Node.IsKey key := by
      by_contra unknown
      exact known ⟨key, rfl, unknown⟩
    have text := named.intercalate rest
    have some : steps ≠ [] := by
      rintro rfl
      exact shown String.intercalate_nil
    have joined := String.intercalate_append_of_ne_nil (s := ".") some (List.cons_ne_nil key rest)
    have whole : ".".intercalate (steps ++ key :: rest) ≠ "" := by
      rw [joined]
      simp [shown]
    simp only [pathText, if_neg whole, if_neg text.ne_empty, textBelow, if_neg text.ne_root]
    exact joined

variable {α : Type}

theorem avoids_here (problem : Problem) : Avoids Astray (problem.here : Except Malformed α) := by
  rintro _ ⟨⟩ ⟨_, ⟨⟩, _⟩

theorem avoids_at {key : String} (known : Node.IsKey key) (problem : Problem) :
    Avoids Astray (problem.at key : Except Malformed α) := by
  rintro _ ⟨⟩ ⟨_, ⟨⟩, unknown⟩
  exact unknown known

theorem avoids_under {key : String} (known : Node.IsKey key) (outcome : Except Malformed α) :
    Avoids Astray (under key outcome) := by
  refine avoids_mapError (fun m => ?_) outcome
  rintro ⟨_, ⟨⟩, unknown⟩
  exact unknown known

end Malformed

open Malformed

namespace Node

variable {whole : Json} {node : Node whole} {key : String} {position : Nat}

theorem avoids_ofJson (json : Json) : Avoids Astray (ofJson json) := by
  unfold ofJson
  split
  · split
    · exact avoids_here _
    · split
      · exact avoids_here _
      · exact avoids_ok _
  · exact avoids_ok _
  · exact avoids_here _
  · exact avoids_here _

theorem avoids_field : Avoids Astray (node.field key position) := by
  unfold field
  split
  · exact avoids_ok _
  · exact avoids_here _

theorem avoids_nameField (known : IsKey key) : Avoids Astray (node.nameField key position) := by
  refine avoids_field.bind fun ⟨part, _⟩ _ => ?_
  cases part with
  | string s =>
    show Avoids Astray (if Text.trim s = "" then _ else _)
    split
    · exact avoids_at known _
    · exact avoids_ok _
  | _ => exact avoids_at known _

theorem avoids_columnsField (known : IsKey key) : Avoids Astray (node.columnsField key position) := by
  rw [columnsField_eq]
  refine avoids_field.bind fun part _ => ?_
  unfold someColumnsOf
  split
  · exact avoids_at known _
  · split
    · exact avoids_at known _
    · exact avoids_ok _

theorem avoids_exprField (known : IsKey key) : Avoids Astray (Stage.exprField node key position) :=
  avoids_field.bind fun _ _ => avoids_under known _

end Node

namespace Expr

variable {whole : Json} (node : Node whole)

theorem avoids_leafOfNode : Avoids Astray (leafOfNode node) := by
  have value : Node.IsKey "value" := by decide
  have text : Avoids Astray (leafOfNode.textLeaf node) := by
    refine Node.avoids_field.bind fun _ _ => ?_
    split
    · exact avoids_ok _
    · exact avoids_at value _
  unfold leafOfNode
  split
  · exact avoids_ok _
  · exact avoids_ok _
  · exact (Node.avoids_nameField value).bind fun _ _ => avoids_ok _
  · refine Node.avoids_field.bind fun _ _ => ?_
    split
    · exact avoids_ok _
    · exact avoids_at value _
  · refine Node.avoids_field.bind fun _ _ => ?_
    split
    · split
      · exact avoids_ok _
      · exact avoids_at value _
    · exact avoids_at value _
  · exact text
  · exact text
  · refine Node.avoids_field.bind fun _ _ => ?_
    split
    · exact avoids_at value _
    · split
      · exact avoids_ok _
      · exact avoids_at value _
  · exact avoids_here _

theorem avoids_ofNode : Avoids Astray (ofNode node) := by
  have operand {key : String} {position : Nat} (known : Node.IsKey key) :=
    @Node.avoids_exprField whole node key position known
  unfold ofNode
  split
  · exact avoids_leafOfNode node
  split
  · split
    · exact (operand (by decide)).bind fun _ _ => avoids_ok _
    split
    · exact (operand (by decide)).bind fun _ _ => (operand (by decide)).bind fun _ _ => avoids_ok _
    split
    · exact (operand (by decide)).bind fun _ _ => (operand (by decide)).bind fun _ _ =>
        (operand (by decide)).bind fun _ _ => avoids_ok _
    · exact avoids_here _
  · exact avoids_here _

theorem avoids_ofJson (json : Json) : Avoids Astray (ofJson json) := by
  rw [ofJson_eq]
  exact (Node.avoids_ofJson json).bind fun node _ => avoids_ofNode node

end Expr

namespace Stage

variable {whole : Json} (node : Node whole)

theorem avoids_descendingField : Avoids Astray (descendingField node) := by
  unfold descendingField
  split
  · exact avoids_ok _
  · exact avoids_ok _
  · exact avoids_ok _
  · exact avoids_at (by decide) _

theorem avoids_summaryField : Avoids Astray (summaryField node) := by
  have func : Node.IsKey "func" := by decide
  refine (Node.avoids_nameField func).bind fun _ _ => ?_
  split
  · exact avoids_ok _
  · exact avoids_at func _

theorem avoids_ofNode : Avoids Astray (ofNode node) := by
  have columns := @Node.avoids_columnsField whole node "columns" 0 (by decide)
  have name {key : String} {position : Nat} (known : Node.IsKey key) :=
    @Node.avoids_nameField whole node key position known
  have expr {position : Nat} := @Node.avoids_exprField whole node "expr" position (by decide)
  unfold ofNode
  split
  · exact columns.bind fun _ _ => avoids_ok _
  · exact expr.bind fun _ _ => avoids_ok _
  · exact columns.bind fun _ _ => avoids_ok _
  · exact columns.bind fun _ _ => avoids_ok _
  · exact (name (by decide)).bind fun _ _ => (name (by decide)).bind fun _ _ =>
      (name (by decide)).bind fun _ _ => (name (by decide)).bind fun _ _ => avoids_ok _
  · exact (name (by decide)).bind fun _ _ => expr.bind fun _ _ => avoids_ok _
  · exact (name (by decide)).bind fun _ _ => avoids_ok _
  · exact (name (by decide)).bind fun _ _ => avoids_ok _
  · exact columns.bind fun _ _ => avoids_ok _
  · exact columns.bind fun _ _ => (avoids_descendingField node).bind fun _ _ => avoids_ok _
  · exact (avoids_summaryField node).bind fun _ _ => (name (by decide)).bind fun _ _ => avoids_ok _
  · exact avoids_ok _
  · exact columns.bind fun _ _ => avoids_ok _
  · exact avoids_here _

theorem avoids_ofJson (json : Json) : Avoids Astray (ofJson json) := by
  refine (Node.avoids_ofJson json).bind fun node _ => ?_
  split
  · exact avoids_ofNode node
  · exact avoids_here _

end Stage

/-! ### Expressions inside of others -/

namespace Node

/-- What stands in a place of the node can be read as what is expected there. -/
def Legible {whole : Json} (node : Node whole) (key : String) (position : Nat) : Slot → Prop
  | .node => ∃ e, Stage.exprField node key position = .ok e
  | .columns => ∃ names, node.columnsField key position = .ok names
  | .scalar => ∃ name, node.nameField key position = .ok name

/-- The part is the expression under the key of a node of the family, and the fields before it can be
read. -/
inductive Operand (family key : String) (whole part : Json) : Prop where
  | intro (node : Node whole) (position : Nat) (read : ofJson whole = .ok node)
    (member : node.family = family)
    (placed : (layout family node.name)[position]? = some (key, .node))
    (found : node.fields.get? key position = some part)
    (earlier : ∀ i key' slot, i < position → (layout family node.name)[i]? = some (key', slot) →
      node.Legible key' i slot)

theorem isKey_of_layout {family name key : String} {slot : Slot}
    (placed : (key, slot) ∈ layout family name) : IsKey key := by
  have stage : ∀ field ∈ stageLayout name, IsKey field.1 := by
    unfold stageLayout
    split <;> decide
  have each : ∀ field ∈ layout family name, IsKey field.1 := by
    unfold layout
    repeat' split
    all_goals first | exact stage | decide
  exact each _ placed

variable {whole part : Json} {node : Node whole} {key : String} {position : Nat} {m : Malformed}

theorem Operand.shown {family : String} (operand : Operand family key whole part) (steps : List String) :
    ".".intercalate (key :: steps) ≠ "" := by
  obtain ⟨_, _, _, _, placed, _, _⟩ := operand
  have known := isKey_of_layout (List.mem_of_getElem? placed)
  exact (known.intercalate steps).ne_empty

theorem exprField_eq_error (found : node.fields.get? key position = some part)
    (failed : Expr.ofJson part = .error m) :
    Stage.exprField node key position = .error ⟨key :: m.path, m.problem⟩ := by
  rw [Stage.exprField, field_of_found found]
  show under key (Expr.ofJson part) = _
  rw [failed]
  rfl

theorem Operand.expr (operand : Operand operatorFamily key whole part)
    (failed : Expr.ofJson part = .error m) :
    Expr.ofJson whole = .error ⟨key :: m.path, m.problem⟩ := by
  obtain ⟨node, position, read, member, placed, found, earlier⟩ := operand
  have fails := exprField_eq_error found failed
  have other : node.family ≠ valueFamily := by
    rw [member]
    decide
  rw [Expr.ofJson_eq, read]
  show Expr.ofNode node = _
  rw [Expr.ofNode, if_neg other, if_pos member]
  cases unary : UnaryOp.ofName? node.name with
  | some op =>
    rw [layout_unary unary] at placed
    rcases position with _ | position <;> cases placed
    exact bind_pure_eq_error.mpr fails
  | none =>
    cases binary : BinaryOp.ofName? node.name with
    | some op =>
      rw [layout_binary unary binary] at placed earlier
      rcases position with _ | _ | position <;> cases placed
      · simp only [fails]
        rfl
      · obtain ⟨left, first⟩ := earlier 0 _ _ Nat.zero_lt_one rfl
        simp only [first, fails]
        rfl
    | none =>
      by_cases choice : node.name = "ifElse"
      · simp only [if_pos choice]
        rw [choice] at placed earlier
        rcases position with _ | _ | _ | position <;> cases placed
        · simp only [fails]
          rfl
        · obtain ⟨condition, first⟩ := earlier 0 _ _ Nat.zero_lt_one rfl
          simp only [first, fails]
          rfl
        · obtain ⟨condition, first⟩ := earlier 0 _ _ Nat.zero_lt_two rfl
          obtain ⟨yes, second⟩ := earlier 1 _ _ Nat.one_lt_two rfl
          simp only [first, second, fails]
          rfl
      · have none : layout operatorFamily node.name = [] := by
          simp [layout, unary, binary, choice, operatorFamily, valueFamily]
        rw [none] at placed
        cases placed

/-- Only two stages have an expression. -/
theorem kind_of_layout {kind : String} (placed : (key, .node) ∈ stageLayout kind) :
    kind = "filter" ∨ kind = "mutate" := by
  unfold stageLayout at placed
  split at placed
  case h_2 => exact .inl rfl
  case h_6 => exact .inr rfl
  all_goals simp at placed

theorem Operand.stage (operand : Operand stageFamily key whole part)
    (failed : Expr.ofJson part = .error m) :
    Stage.ofJson whole = .error ⟨key :: m.path, m.problem⟩ := by
  obtain ⟨node, position, read, member, placed, found, earlier⟩ := operand
  have fails := exprField_eq_error found failed
  have laid : layout stageFamily node.name = stageLayout node.name := rfl
  rw [Stage.ofJson, read]
  show (if _ then _ else _) = _
  rw [if_pos member]
  rw [laid] at placed earlier
  unfold Stage.ofNode
  obtain filter | mutate := kind_of_layout (List.mem_of_getElem? placed)
  · rw [filter] at placed ⊢
    rcases position with _ | position <;> cases placed
    exact bind_pure_eq_error.mpr fails
  · rw [mutate] at placed earlier ⊢
    rcases position with _ | _ | position <;> cases placed
    obtain ⟨column, first⟩ := earlier 0 _ _ Nat.zero_lt_one rfl
    simp only [first, fails]
    rfl

end Node

namespace Expr

/-- The expression `inner` stands at the end of the path from the other, and every operand before those
on the path can be read. -/
inductive Within (inner : Json) : List String → Json → Prop where
  | here : Within inner [] inner
  | operand {key : String} {steps : List String} {whole part : Json} :
    Node.Operand Node.operatorFamily key whole part → Within inner steps part →
    Within inner (key :: steps) whole

theorem Within.ofJson_eq_error {inner whole : Json} {steps : List String} {m : Malformed}
    (within : Within inner steps whole) (failed : ofJson inner = .error m) :
    ofJson whole = .error ⟨steps ++ m.path, m.problem⟩ := by
  induction within with
  | here => exact failed
  | operand operand _ ih => exact operand.expr ih

end Expr

/-! ### Pipelines and programs -/

namespace Pipeline

/-- A value that is no pipeline, for it is no array or some item is no stage. -/
inductive Faulty : Json → Prop where
  | notArray {json : Json} : (∀ items, json ≠ .array items) → Faulty json
  | stage {items : List Json} {stage : Json} {m : Malformed} : stage ∈ items →
    Stage.ofJson stage = .error m → Faulty (.array items)

variable {name : String} {json : Json}

theorem exists_ofNamedJson : (∃ p, ofNamedJson name json = .ok p) ↔ ¬ Faulty json := by
  constructor
  · rintro ⟨p, read⟩ faulty
    obtain ⟨items, rfl, stages⟩ := ofNamedJson_eq_ok.mp read
    cases faulty with
    | notArray other => exact other items rfl
    | stage member failed =>
      have made := List.mem_map_of_mem (f := Stage.ofJson) member
      rw [stages, failed] at made
      simp at made
  · intro sound
    cases json with
    | array items =>
      have each : ∀ item ∈ items, ∃ stage, Stage.ofJson item = .ok stage := by
        intro item member
        cases read : Stage.ofJson item with
        | ok stage => exact ⟨stage, rfl⟩
        | error m => exact absurd (.stage member read) sound
      obtain ⟨stages, made⟩ := exists_mapM each
      exact ⟨⟨stages⟩, ofNamedJson_eq_ok.mpr ⟨items, rfl, mapM_eq_ok.mp made⟩⟩
    | _ => exact absurd (.notArray nofun) sound

theorem ofNamedJson_notArray (other : ∀ items, json ≠ .array items) :
    ofNamedJson name json = .error ⟨[name], .notPipeline⟩ := by
  cases json with
  | array items => exact absurd rfl (other items)
  | _ => rfl

theorem stagesOfJson_eq_error {earlier later : List Json} {stage : Json} {m : Malformed}
    (read : ∀ item ∈ earlier, ∃ made, Stage.ofJson item = .ok made)
    (failed : Stage.ofJson stage = .error m) (index : Nat) :
    stagesOfJson name index (earlier ++ stage :: later) =
      .error ⟨s!"{name}[{index + earlier.length}]" :: m.path, m.problem⟩ := by
  induction earlier generalizing index with
  | nil =>
    rw [List.nil_append, stagesOfJson, failed]
    rfl
  | cons item rest ih =>
    obtain ⟨⟨made, first⟩, read⟩ := List.forall_mem_cons.mp read
    have shifted : index + 1 + rest.length = index + (item :: rest).length := by
      rw [List.length_cons]
      omega
    rw [List.cons_append, stagesOfJson, first, ih read, shifted]
    rfl

theorem ofNamedJson_eq_error {earlier later : List Json} {stage : Json} {m : Malformed}
    (read : ∀ item ∈ earlier, ∃ made, Stage.ofJson item = .ok made)
    (failed : Stage.ofJson stage = .error m) :
    ofNamedJson name (.array (earlier ++ stage :: later)) =
      .error ⟨s!"{name}[{earlier.length}]" :: m.path, m.problem⟩ := by
  rw [ofNamedJson, stagesOfJson_eq_error read failed 0, Nat.zero_add]
  rfl

end Pipeline

namespace Program

theorem exists_entriesOfJson {fields : List (String × Json)} :
    (∃ entries, entriesOfJson fields = .ok entries) ↔ ∀ field ∈ fields, ¬ Pipeline.Faulty field.2 := by
  induction fields with
  | nil => exact ⟨fun _ => List.forall_mem_nil _, fun _ => ⟨[], rfl⟩⟩
  | cons field rest ih =>
    rw [List.forall_mem_cons, ← ih, ← @Pipeline.exists_ofNamedJson field.1, entriesOfJson]
    simp only [bind_eq_ok, pure_eq_ok]
    constructor
    · rintro ⟨_, p, first, entries, later, _⟩
      exact ⟨⟨p, first⟩, entries, later⟩
    · rintro ⟨⟨p, first⟩, entries, later⟩
      exact ⟨_, p, first, entries, later, rfl⟩

theorem entriesOfJson_eq_error {before after : List (String × Json)} {name : String} {json : Json}
    {m : Malformed} (sound : ∀ field ∈ before, ¬ Pipeline.Faulty field.2)
    (failed : Pipeline.ofNamedJson name json = .error m) :
    entriesOfJson (before ++ (name, json) :: after) = .error m := by
  induction before with
  | nil =>
    rw [List.nil_append, entriesOfJson, failed]
    rfl
  | cons field rest ih =>
    obtain ⟨first, sound⟩ := List.forall_mem_cons.mp sound
    obtain ⟨p, read⟩ := (@Pipeline.exists_ofNamedJson field.1 _).mpr first
    rw [List.cons_append, entriesOfJson, read, ih sound]
    rfl

theorem exists_ofJson_eq_error {fields : List (String × Json)} :
    (∃ m, ofJson (.object fields) = .error m) ↔ ∃ field ∈ fields, Pipeline.Faulty field.2 := by
  have sound := @exists_entriesOfJson fields
  rw [ofJson]
  cases read : entriesOfJson fields with
  | ok entries =>
    have none := sound.mp ⟨entries, read⟩
    constructor
    · rintro ⟨m, failed⟩
      cases failed
    · rintro ⟨field, member, faulty⟩
      exact absurd faulty (none field member)
  | error m =>
    refine ⟨fun _ => ?_, fun _ => ⟨m, rfl⟩⟩
    by_contra none
    obtain ⟨entries, ended⟩ := sound.mpr fun field member faulty => none ⟨field, member, faulty⟩
    cases read.symm.trans ended

theorem ofJson_eq_error {before after : List (String × Json)} {name : String} {json : Json}
    {m : Malformed} (sound : ∀ field ∈ before, ¬ Pipeline.Faulty field.2)
    (failed : Pipeline.ofNamedJson name json = .error m) :
    ofJson (.object (before ++ (name, json) :: after)) = .error m := by
  rw [ofJson, entriesOfJson_eq_error sound failed]
  rfl

/-- A program cannot be read if and only if a pipeline is faulty, and then the error is that of the
first such pipeline and of its first faulty stage, under the path of that stage. An expression inside
of an operator or a stage, at any depth, has its error reported in the same way. -/
theorem first_fault_reported :
    (∀ fields : List (String × Json),
      (∃ m, ofJson (.object fields) = .error m) ↔ ∃ field ∈ fields, Pipeline.Faulty field.2) ∧
    (∀ (before after : List (String × Json)) (name : String),
      (∀ field ∈ before, ¬ Pipeline.Faulty field.2) →
      (∀ json, (∀ items, json ≠ .array items) →
        ∃ m, ofJson (.object (before ++ (name, json) :: after)) = .error m ∧
          m.problem = .notPipeline ∧ m.pathText = if name = "" then "<root>" else name) ∧
      (∀ earlier stage later m, (∀ item ∈ earlier, ∃ made, Stage.ofJson item = .ok made) →
        Stage.ofJson stage = .error m →
        ∃ m', ofJson (.object (before ++ (name, .array (earlier ++ stage :: later)) :: after)) =
          .error m' ∧ m.Relays s!"{name}[{earlier.length}]" m')) ∧
    (∀ (inner part whole : Json) (key : String) (steps : List String) (m : Malformed),
      Expr.ofJson inner = .error m → Expr.Within inner steps part →
      (Node.Operand Node.operatorFamily key whole part →
        ∃ m', Expr.ofJson whole = .error m' ∧ m.Relays (".".intercalate (key :: steps)) m') ∧
      (Node.Operand Node.stageFamily key whole part →
        ∃ m', Stage.ofJson whole = .error m' ∧ m.Relays (".".intercalate (key :: steps)) m')) := by
  refine ⟨fun fields => ?_, fun before after name sound => ⟨fun json other => ?_, ?_⟩, ?_⟩
  · exact exists_ofJson_eq_error
  · refine ⟨⟨[name], .notPipeline⟩, ofJson_eq_error sound (Pipeline.ofNamedJson_notArray other), rfl, ?_⟩
    rw [pathText, String.intercalate_singleton]
  · intro earlier stage later m read failed
    have known := Stage.avoids_ofJson stage m failed
    refine ⟨_, ofJson_eq_error sound (Pipeline.ofNamedJson_eq_error read failed), ?_⟩
    have shown : ".".intercalate [s!"{name}[{earlier.length}]"] ≠ "" := by
      rw [String.intercalate_singleton]
      simp
    have reported := relays_append known shown
    rw [String.intercalate_singleton] at reported
    exact reported
  · intro inner part whole key steps m failed within
    have known := Expr.avoids_ofJson inner m failed
    have inside := within.ofJson_eq_error failed
    exact ⟨fun operand => ⟨_, operand.expr inside, relays_append known (operand.shown steps)⟩,
      fun operand => ⟨_, operand.stage inside, relays_append known (operand.shown steps)⟩⟩

/-- The sum of the number of a row and a number that is not there. -/
def unfinished : Json :=
  .array [.string "@op", .string "add", .array [.string "@value", .string "rowIndex"],
    .object [("family", .string "@op"), ("species", .string "negate"), ("arg", .null)]]

def numbering : Json :=
  .object [("expr", unfinished), ("family", .string "@stage"), ("kind", .string "mutate"),
    ("column", .string " total ")]

def ungrouping : Json := .array [.string "@stage", .string "ungroup"]

theorem within_unfinished : Expr.Within .null ["right", "arg"] unfinished := by
  have first : ∃ e, Expr.ofJson (.array [.string "@value", .string "rowIndex"]) = .ok e := by
    rw [Expr.ofJson_eq]
    exact ⟨_, rfl⟩
  obtain ⟨e, first⟩ := first
  refine .operand ⟨_, 1, rfl, rfl, rfl, rfl, ?_⟩ (.operand ⟨_, 0, rfl, rfl, rfl, rfl, ?_⟩ .here)
  · rintro (_ | i) key slot early placed
    · cases placed
      exact ⟨e, under_eq_ok.mpr first⟩
    · omega
  · intro i key slot early
    omega

theorem operand_numbering : Node.Operand Node.stageFamily "expr" numbering unfinished := by
  refine ⟨_, 1, rfl, rfl, rfl, rfl, ?_⟩
  rintro (_ | i) key slot early placed
  · cases placed
    exact ⟨"total", rfl⟩
  · omega

theorem first_fault_reported_numbering :
    (∃ m, Stage.ofJson numbering = .error m ∧ m.problem = .notNode .null ∧
      m.pathText = "expr.right.arg") ∧
    (∃ m, ofJson (.object [("main", .array [ungrouping, numbering]), ("", .null)]) = .error m ∧
      m.problem = .notNode .null ∧ m.pathText = "main[1].expr.right.arg") ∧
    ∃ m, ofJson (.object [("main", .array [ungrouping]), ("", .null)]) = .error m ∧
      m.problem = .notPipeline ∧ m.pathText = "<root>" := by
  obtain ⟨_, located, nested⟩ := first_fault_reported
  have failed : Expr.ofJson .null = .error ⟨[], .notNode .null⟩ := by
    rw [Expr.ofJson_eq]
    rfl
  obtain ⟨m, stage, same, path⟩ :=
    (nested _ _ _ _ _ _ failed within_unfinished).2 operand_numbering
  have text : m.pathText = "expr.right.arg" := path.trans (by decide)
  have read : ∀ item ∈ [ungrouping], ∃ made, Stage.ofJson item = .ok made := by
    simpa using ⟨_, rfl⟩
  have sound : ∀ field ∈ [("main", Json.array [ungrouping])], ¬ Pipeline.Faulty field.2 := by
    simpa using (@Pipeline.exists_ofNamedJson "main" _).mp ⟨_, rfl⟩
  refine ⟨⟨m, stage, same, text⟩, ?_, ?_⟩
  · obtain ⟨m', program, same', path'⟩ :=
      (located [] [("", .null)] "main" (List.forall_mem_nil _)).2 [ungrouping] numbering [] m read stage
    refine ⟨m', program, same'.trans same, ?_⟩
    rw [path', text]
    decide
  · exact (located [("main", .array [ungrouping])] [] "" sound).1 .null nofun

end Program

end Tableflow
