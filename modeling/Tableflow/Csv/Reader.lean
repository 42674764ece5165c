import Tableflow.Text.Utf8

/-!
Comma-separated records. Fields may stand in double quotes, in which a quote is doubled; a record
ends with a line feed, a carriage return or both; empty lines are no records. Each record keeps the
place where the one before it ended.
-/

namespace Tableflow.Csv

open Text (Symbol)

/-- A place in the bytes; lines count from one. -/
structure Place where
  byte : Nat
  line : Nat
  deriving DecidableEq, Repr

def Place.start : Place := ⟨0, 1⟩

def Place.after (place : Place) (s : Symbol) : Place :=
  ⟨place.byte + s.width, if s = .char '\n' then place.line + 1 else place.line⟩

structure Record where
  place : Place
  fields : List (List Symbol)

/-- Where in a record the next symbol stands. What follows a closing quote is plain, unless it is
another quote, which makes both of them one quote in the field. -/
inductive Mode where
  | record | field | plain | quoted | closed
  deriving DecidableEq, Repr

def isLineEnd (s : Symbol) : Bool := s == .char '\n' || s == .char '\r'

/-- Read on from `here` in a record that began at `place`: the fields before the current one and
the symbols of the current one so far are held with the latest first. -/
def recordsFrom (here place : Place) (mode : Mode) (fields : List (List Symbol))
    (field : List Symbol) : List Symbol → List Record
  | [] => if mode = .record then [] else [⟨place, (field.reverse :: fields).reverse⟩]
  | s :: rest =>
    let next := here.after s
    if mode = .quoted then
      if s = .char '"' then recordsFrom next place .closed fields field rest
      else recordsFrom next place .quoted fields (s :: field) rest
    else if mode = .closed ∧ s = .char '"' then
      recordsFrom next place .quoted fields (s :: field) rest
    else if mode = .record ∧ isLineEnd s then recordsFrom next place .record fields field rest
    else if isLineEnd s then
      ⟨place, (field.reverse :: fields).reverse⟩ :: recordsFrom next next .record [] [] rest
    else if s = .char ',' then recordsFrom next place .field (field.reverse :: fields) [] rest
    else if (mode = .record ∨ mode = .field) ∧ s = .char '"' then
      recordsFrom next place .quoted fields field rest
    else recordsFrom next place .plain fields (s :: field) rest

def byteOrderMark : Symbol := .char '\ufeff'

def records (input : List Symbol) : List Record :=
  match input with
  | [] => []
  | s :: rest =>
    -- only at the very start is the mark no part of the text
    if s = byteOrderMark then recordsFrom (Place.start.after s) .start .record [] [] rest
    else recordsFrom .start .start .record [] [] input

/-! ### Errors -/

inductive Error where
  -- records that are read have a number and a place
  | unequalLengths (origin : Option (Nat × Place)) (expected found : Nat)
  -- field number `field` stops to be text after `valid` bytes
  | notText (record : Nat) (place : Place) (field valid : Nat)
  deriving DecidableEq, Repr

def Error.message : Error → String
  | unequalLengths origin expected found =>
    let whence := match origin with
      | none => ""
      | some (record, place) => s!"record {record} (line: {place.line}, byte: {place.byte}): "
    s!"CSV error: {whence}found record with {found} fields, but the previous record has {expected} fields"
  | notText record place field valid =>
    s!"CSV parse error: record {record} (line {place.line}, field: {field}, byte: {place.byte}): " ++
      s!"invalid utf-8: invalid UTF-8 in field {field} near byte index {valid}"

def Record.texts (record : Record) (number : Nat) : Except Error (List String) :=
  record.fields.zipIdx.mapM fun (field, index) =>
    match Text.assemble field with
    | .ok cs => .ok (String.ofList cs)
    | .error valid => .error (.notText number record.place index valid)

end Tableflow.Csv
