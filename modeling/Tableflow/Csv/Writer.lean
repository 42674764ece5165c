import Tableflow.Csv.Reader

/-!
Records written as comma-separated text, one per line. A field is quoted if it could not be read
back otherwise, and so is a record that would leave its line empty.
-/

namespace Tableflow.Csv

def needsQuotes (field : List Char) : Bool :=
  field.any fun c => c = ',' || c = '"' || c = '\r' || c = '\n'

def doubleQuotes (field : List Char) : List Char :=
  field.flatMap fun c => if c = '"' then ['"', '"'] else [c]

def fieldChars (field : List Char) : List Char :=
  if needsQuotes field then '"' :: doubleQuotes field ++ ['"'] else field

def fieldsChars : List (List Char) → List Char
  | [] => []
  | [field] => fieldChars field
  | field :: rest => fieldChars field ++ ',' :: fieldsChars rest

def lineChars (fields : List (List Char)) : List Char :=
  let line := fieldsChars fields
  (if line.isEmpty then ['"', '"'] else line) ++ ['\n']

/-- What was written, and the error that stopped the writing, if any. -/
structure Output where
  chars : List Char
  error : Option Error

def Output.text (output : Output) : String := String.ofList output.chars

/-- Write records of `expected` fields. A record of another length stops the writing; its fields
have been written then. -/
def writeLines (expected : Nat) : List (List (List Char)) → Output
  | [] => ⟨[], none⟩
  | record :: rest =>
    if record.length = expected then
      let output := writeLines expected rest
      ⟨lineChars record ++ output.chars, output.error⟩
    else ⟨fieldsChars record, some (.unequalLengths none expected record.length)⟩

def write (records : List (List String)) : Output :=
  match records with
  | [] => ⟨[], none⟩
  | first :: _ => writeLines first.length (records.map fun record => record.map String.toList)

end Tableflow.Csv
