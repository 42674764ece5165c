import Tableflow.Command.Run

/-!
The arguments of the command line. Options may stand before or after other arguments, short options
may be joined, and a value may be attached to its option or follow it.
-/

namespace Tableflow.Command

inductive Request where
  | version
  | run (verbosity : Nat) (program : String) (sources : List String) (pretty : Bool) (format : Format)
  | check (verbosity : Nat) (program : String)
  | catalog (verbosity : Nat)
  deriving DecidableEq, Repr

inductive Verb where
  | run | check | catalog
  deriving DecidableEq, Repr

def Verb.ofName? (name : String) : Option Verb :=
  if name = "run" then some .run
  else if name = "check" then some .check
  else if name = "catalog" then some .catalog
  else none

/-- The arguments after a verb, as far as they have been read. -/
structure Draft where
  verbosity : Nat := 0
  program : Option String := none
  sources : List String := []
  pretty : Bool := false
  format : Option Format := none

inductive ValueOption where
  | source | format
  deriving DecidableEq, Repr

namespace Draft

/-- Set an option with a value; the format is set at most once. -/
def setValue? (d : Draft) (option : ValueOption) (value : String) : Option Draft :=
  match option with
  | .source => some { d with sources := d.sources ++ [value] }
  | .format =>
    if d.format.isSome then none
    else if value = "json" then some { d with format := some .json }
    else if value = "csv" then some { d with format := some .csv }
    else none

def setPretty? (d : Draft) : Option Draft := if d.pretty then none else some { d with pretty := true }

/-- Take an argument that is no option: the path of the program. -/
def setProgram? (verb : Verb) (d : Draft) (path : String) : Option Draft :=
  if verb = .catalog ∨ d.program.isSome ∨ path = "" then none
  else some { d with program := some path }

/-- Read joined short options. An option whose value has to follow comes back with the draft. -/
def shorts? (verb : Verb) (d : Draft) : List Char → Option (Draft × Option ValueOption)
  | [] => some (d, none)
  | c :: rest =>
    if c = 'v' then shorts? verb { d with verbosity := d.verbosity + 1 } rest
    else if verb ≠ .run then none
    else if c = 'p' then
      match d.setPretty? with
      | some d => shorts? verb d rest
      | none => none
    else if c = 's' ∨ c = 'f' then
      let option : ValueOption := if c = 's' then .source else .format
      match rest with
      | [] => some (d, some option)
      | '=' :: value => (d.setValue? option (String.ofList value)).map fun d => (d, none)
      | value => (d.setValue? option (String.ofList value)).map fun d => (d, none)
    else none

def long? (verb : Verb) (d : Draft) (text : List Char) : Option (Draft × Option ValueOption) :=
  let name := String.ofList (text.takeWhile fun c => c ≠ '=')
  let value := text.dropWhile fun c => c ≠ '='
  if name = "verbose" then
    if value.isEmpty then some ({ d with verbosity := d.verbosity + 1 }, none) else none
  else if verb ≠ .run then none
  else if name = "pretty" then
    if value.isEmpty then d.setPretty?.map fun d => (d, none) else none
  else if name = "source" ∨ name = "format" then
    let option : ValueOption := if name = "source" then .source else .format
    match value with
    | [] => some (d, some option)
    | _ :: value => (d.setValue? option (String.ofList value)).map fun d => (d, none)
  else none

/-- A dash alone is an ordinary argument. -/
def isOption (arg : String) : Bool := arg.startsWith "-" && arg != "-"

/-- Read the arguments after a verb; after `--` none of them is an option. -/
def arguments? (verb : Verb) (onlyPaths : Bool) (d : Draft) : List String → Option Draft
  | [] => some d
  | arg :: rest =>
    if onlyPaths ∨ ¬ isOption arg then
      match d.setProgram? verb arg with
      | some d => arguments? verb onlyPaths d rest
      | none => none
    else if arg = "--" then arguments? verb true d rest
    else
      let read := match arg.toList with
        | '-' :: '-' :: text => long? verb d text
        | text => shorts? verb d (text.drop 1)
      match read with
      | none => none
      | some (d, none) => arguments? verb onlyPaths d rest
      | some (d, some option) =>
        match rest with
        | [] => none
        | value :: rest =>
          if isOption value then none
          else
            match d.setValue? option value with
            | some d => arguments? verb onlyPaths d rest
            | none => none

/-- A finished draft as a request. Options given after the verb replace those before it. -/
def request? (verb : Verb) (verbosity : Nat) (d : Draft) : Option Request :=
  let verbosity := if d.verbosity = 0 then verbosity else d.verbosity
  match verb, d.program with
  | .run, some program => some (.run verbosity program d.sources d.pretty (d.format.getD .json))
  | .check, some program => some (.check verbosity program)
  | .catalog, _ => some (.catalog verbosity)
  | _, none => none

end Draft

/-- Joined short options before the verb: how often `v` comes, and whether `V` follows. -/
def leadingShorts? (verbosity : Nat) : List Char → Option (Nat × Bool)
  | [] => some (verbosity, false)
  | c :: rest =>
    if c = 'v' then leadingShorts? (verbosity + 1) rest
    else if c = 'V' then some (verbosity, true)
    else none

def requestFrom? (verbosity : Nat) : List String → Option Request
  | [] => none
  | arg :: rest =>
    if arg = "--verbose" then requestFrom? (verbosity + 1) rest
    else if arg = "--version" then some .version
    else if Draft.isOption arg then
      if arg.startsWith "--" then none
      else
        match leadingShorts? verbosity (arg.toList.drop 1) with
        | none => none
        | some (_, true) => some .version
        | some (verbosity, false) => requestFrom? verbosity rest
    else
      match Verb.ofName? arg with
      | none => none
      | some verb =>
        match Draft.arguments? verb false {} rest with
        | some d => d.request? verb verbosity
        | none => none

/-- The request of a command line; nothing if the arguments make no sense. -/
def Request.ofArgs? (args : List String) : Option Request := requestFrom? 0 args

def Request.paths : Request → List String
  | version => []
  | run _ program sources _ _ =>
    program :: sources.filterMap fun arg =>
      match Source.ofArg arg with
      | .ok source => some source.path
      | .error _ => none
  | check _ program => [program]
  | catalog _ => []

end Tableflow.Command
