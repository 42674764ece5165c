/-!
Paths: names between slashes.
-/

namespace Tableflow.Command

def pathParts : List Char → List (List Char)
  | [] => [[]]
  | c :: rest =>
    if c = '/' then [] :: pathParts rest
    else
      match pathParts rest with
      | part :: parts => (c :: part) :: parts
      | [] => [[c]]

def fileName? (path : String) : Option (List Char) :=
  ((pathParts path.toList).filter fun part => part ≠ [] ∧ part ≠ ['.']).getLast?

/-- What follows the last point of a file name, if anything stands before it. -/
def extension? (path : String) : Option String :=
  match fileName? path with
  | none => none
  | some name =>
    let after := (name.reverse.takeWhile fun c => c ≠ '.').reverse
    match name.reverse.dropWhile fun c => c ≠ '.' with
    | [] => none
    | _ :: before =>
      if before.isEmpty ∨ name = ['.', '.'] then none
      else some (String.ofList (after.map Char.toLower))

end Tableflow.Command
