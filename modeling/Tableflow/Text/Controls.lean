/-!
Terminal controls in text, and text without them. A control sequence begins with an escape
character and runs to its final character; nothing in it shows but tabs and line ends. Outside of
sequences all shows but control characters.
-/

namespace Tableflow.Text

/-- Where in a control sequence the next character stands. After the escape character, `[` opens a
sequence with parameters, `P` a device string and `]` a system command. -/
inductive Sequence where
  | escape | intermediate | parameters
  | deviceEntry | deviceParameters | deviceIntermediate
  | body | command
  deriving DecidableEq, Repr

inductive Mode where
  | plain
  | within (s : Sequence)
  -- plain text after a tab or line end in a sequence, which goes on with the next control
  | paused (s : Sequence)
  deriving DecidableEq, Repr

def escapeChar : Char := '\x1b'

-- cancel and substitute, which end every sequence
def isCancel (c : Char) : Bool := c = '\x18' || c = '\x1a'

def isLayout (c : Char) : Bool := c = '\t' || c = '\n' || c = '\x0c' || c = '\r'

def isShown (c : Char) : Bool := isLayout c || (0x20 ≤ c.toNat && c.toNat ≠ 0x7F)

/-- Whether the encoding of a character holds the byte of the string terminator. -/
def holdsTerminator (c : Char) : Bool := (String.utf8EncodeChar c).contains 0x9C

def inRange (c : Char) (first last : Nat) : Bool := first ≤ c.toNat && c.toNat ≤ last

namespace Sequence

def showsLayout : Sequence → Bool
  | escape | intermediate | parameters => true
  -- strings and system commands hide tabs and line ends too
  | _ => false

def advance (s : Sequence) (c : Char) : Mode :=
  match s with
  | escape =>
    if inRange c 0x20 0x2F then .within intermediate
    else if c = '[' then .within parameters
    else if c = ']' then .within command
    else if c = 'P' then .within deviceEntry
    else if c = 'X' ∨ c = '^' ∨ c = '_' then .within body
    else if inRange c 0x30 0x7E then .plain
    else .within escape
  | intermediate => if inRange c 0x30 0x7E then .plain else .within intermediate
  | parameters => if inRange c 0x40 0x7E then .plain else .within parameters
  | deviceEntry =>
    if inRange c 0x20 0x2F then .within deviceIntermediate
    else if inRange c 0x30 0x3F then .within deviceParameters
    else if inRange c 0x40 0x7E then .within body
    else .within deviceEntry
  | deviceParameters =>
    if inRange c 0x20 0x2F then .within deviceIntermediate
    else if inRange c 0x3C 0x7E then .within body
    else .within deviceParameters
  | deviceIntermediate => if inRange c 0x30 0x7E then .within body else .within deviceIntermediate
  | body => if holdsTerminator c then .plain else .within body
  | command => if c = '\x07' then .plain else .within command

end Sequence

/-- Whether a character shows, and the mode after it. -/
def Mode.step (mode : Mode) (c : Char) : Bool × Mode :=
  if c = escapeChar then (false, within .escape)
  else if isCancel c then (false, plain)
  else
    match mode with
    | plain => (isShown c, plain)
    | within s => if s.showsLayout && isLayout c then (true, paused s) else (false, s.advance c)
    | paused s =>
      if !isShown c then (false, s.advance c)
      else (true, if c.toNat < 0x80 then paused s else plain)

def shownFrom : Mode → List Char → List Char
  | _, [] => []
  | mode, c :: rest =>
    let (shown, next) := mode.step c
    if shown then c :: shownFrom next rest else shownFrom next rest

def withoutControls (s : String) : String := String.ofList (shownFrom .plain s.toList)

end Tableflow.Text
