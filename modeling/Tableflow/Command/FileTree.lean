import Tableflow.Command.Error
import Tableflow.Command.Path

/-!
A working directory as a value: the files and directories in it, and what reading a path gives. A
path is walked name by name, and every name but the last must be that of a directory. Outside of
the working directory nothing is found.
-/

namespace Tableflow.Command

namespace FileTree

inductive Entry where
  | file (bytes : ByteArray)
  | directory

inductive Place where
  /-- Below the working directory, by the names that lead there. -/
  | inside (names : List String)
  | outside

def Place.parent : Place → Place
  | inside [] => outside
  | inside names => inside names.dropLast
  | outside => outside

/-- Most bytes of a name. -/
def nameLimit : Nat := 255

/-- Most bytes of a path. -/
def pathLimit : Nat := 4095

end FileTree

open FileTree

/-- Entries by the names that lead to them. -/
structure FileTree where
  entries : List (List String × Entry)

namespace FileTree

/-- What stands at a place; an entry implies the directories above it. -/
def entryAt? (t : FileTree) : Place → Option Entry
  | .outside => some .directory
  | .inside names =>
    match t.entries.find? fun entry => entry.1 = names with
    | some (_, entry) => some entry
    | none =>
      if names.isEmpty || t.entries.any fun entry => names.isPrefixOf entry.1 then some .directory
      else none

def enter (t : FileTree) (place : Place) (name : String) : Except FileError Place :=
  match t.entryAt? place with
  | none => .error .notFound
  | some (.file _) => .error .notDirectory
  | some .directory =>
    if name = "" ∨ name = "." then .ok place
    else if name = ".." then .ok place.parent
    else if nameLimit < name.utf8ByteSize then .error .nameTooLong
    else
      match place with
      | .inside names => .ok (.inside (names ++ [name]))
      | .outside => .error .notFound

/-- The names of a path that name something. -/
def namesOf (path : String) : List String :=
  ((pathParts path.toList).map String.ofList).filter fun name => name ≠ "" ∧ name ≠ "."

def read (t : FileTree) : Files := fun path =>
  if path.toList.contains '\x00' then .error .zeroInName
  else if path = "" then .error .notFound
  else if pathLimit < path.utf8ByteSize then .error .nameTooLong
  else do
    let start := if path.startsWith "/" then Place.outside else .inside []
    let place ← ((pathParts path.toList).map String.ofList).foldlM t.enter start
    match t.entryAt? place with
    | none => .error .notFound
    | some .directory => .error .isDirectory
    | some (.file bytes) => .ok bytes

end FileTree

end Tableflow.Command
