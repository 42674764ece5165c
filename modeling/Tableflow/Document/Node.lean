import Tableflow.Document.Basic
import Tableflow.Text.Blank

/-!
Nodes of a document. A node has a family, a name and fields, and two shapes: an object with named
fields, or an array with the fields in order after family and name.
-/

namespace Tableflow

namespace Node

def valueFamily : String := "@value"

def operatorFamily : String := "@op"

def stageFamily : String := "@stage"

def nameKey (family : String) : String := if family = stageFamily then "kind" else "species"

inductive Fields where
  | named (fields : List (String × Json))
  | positional (fields : List Json)

/-- A field by its key or by its position. -/
def Fields.get? : Fields → String → Nat → Option Json
  | named fields, key, _ => fields.lookup key
  | positional fields, _, position => fields[position]?

end Node

/-- A node read from the JSON value `whole`. -/
structure Node (whole : Json) where
  family : String
  name : String
  fields : Node.Fields
  /-- Fields are smaller than the node. -/
  within : ∀ key position part, fields.get? key position = some part → sizeOf part < sizeOf whole

abbrev Json.Part (whole : Json) := { part : Json // sizeOf part < sizeOf whole }

namespace Node

theorem sizeOf_named_lt (fields : List (String × Json)) (key : String) (position : Nat) (part : Json)
    (found : (Fields.named fields).get? key position = some part) :
    sizeOf part < sizeOf (Json.object fields) := by
  have smaller := Json.sizeOf_lookup_lt found
  simp only [Json.object.sizeOf_spec]
  omega

theorem sizeOf_positional_lt (family name : String) (rest : List Json) (key : String) (position : Nat)
    (part : Json) (found : (Fields.positional rest).get? key position = some part) :
    sizeOf part < sizeOf (Json.array (.string family :: .string name :: rest)) := by
  have smaller := Json.sizeOf_getElem?_lt found
  simp only [Json.array.sizeOf_spec, List.cons.sizeOf_spec]
  omega

def ofJson (json : Json) : Except Malformed (Node json) :=
  match json with
  | .object fields =>
    match (fields.lookup "family").bind Json.string? with
    | none => (Problem.missingField "family").here
    | some family =>
      match (fields.lookup (nameKey family)).bind Json.string? with
      | none => (Problem.missingField (nameKey family)).here
      | some name => .ok ⟨family, name, .named fields, sizeOf_named_lt fields⟩
  | .array (.string family :: .string name :: rest) =>
    .ok ⟨family, name, .positional rest, sizeOf_positional_lt family name rest⟩
  | .array _ => Problem.notPositional.here
  | other => (Problem.notNode other).here

variable {whole : Json}

def field? (node : Node whole) (key : String) (position : Nat) : Option (Json.Part whole) :=
  match found : node.fields.get? key position with
  | some part => some ⟨part, node.within key position part found⟩
  | none => none

def field (node : Node whole) (key : String) (position : Nat) : Except Malformed (Json.Part whole) :=
  match node.field? key position with
  | some part => .ok part
  | none => (Problem.fieldRequired node.name key).here

/-- A field that holds a name: a string that is not blank, without blanks at its ends. -/
def nameField (node : Node whole) (key : String) (position : Nat) : Except Malformed String := do
  let ⟨part, _⟩ ← node.field key position
  match part with
  | .string s =>
    let trimmed := Text.trim s
    if trimmed = "" then Problem.notName.at key else return trimmed
  | _ => Problem.notName.at key

def splitCommas : List Char → List (List Char)
  | [] => [[]]
  | c :: rest =>
    if c = ',' then [] :: splitCommas rest
    else
      match splitCommas rest with
      | part :: parts => (c :: part) :: parts
      | [] => [[c]]

def stringItems? : List Json → Option (List String)
  | [] => some []
  | .string s :: rest => (stringItems? rest).map (s :: ·)
  | _ :: _ => none

/-- A field that holds column names: an array of strings, or one string with commas between them.
Blank names do not count. -/
def columnsField (node : Node whole) (key : String) (position : Nat) :
    Except Malformed (List String) := do
  let ⟨part, _⟩ ← node.field key position
  let names ← match part with
    | .string s => Except.ok ((splitCommas s.toList).map String.ofList)
    | .array items =>
      match stringItems? items with
      | some names => Except.ok names
      | none => Problem.columnNotString.at key
    | _ => Problem.notColumns.at key
  let columns := (names.map Text.trim).filter fun name => name ≠ ""
  if columns.isEmpty then (Problem.noColumns node.name).at key else return columns

end Node

end Tableflow
