/-!
Patterns of text: a character of some class, one pattern after another, either of two, and one pattern
any number of times. A text is matched character by character, with what is left of the pattern.
-/

namespace Tableflow.Text

inductive Pattern where
  | never
  | nothing
  | one (isIn : Char → Bool)
  | seq (first second : Pattern)
  | either (first second : Pattern)
  | many (body : Pattern)

namespace Pattern

def optional (p : Pattern) : Pattern := either p nothing

def repeated (p : Pattern) : Pattern := seq p (many p)

def isNullable : Pattern → Bool
  | never => false
  | nothing => true
  | one _ => false
  | seq p q => p.isNullable && q.isNullable
  | either p q => p.isNullable || q.isNullable
  | many _ => true

/-- As `seq`, without parts that need no more characters. -/
def andThen : Pattern → Pattern → Pattern
  | never, _ => never
  | nothing, q => q
  | p, q => seq p q

/-- As `either`, without parts that nothing has. -/
def orElse : Pattern → Pattern → Pattern
  | never, q => q
  | p, never => p
  | p, q => either p q

/-- What is left of a pattern behind the character `c`. -/
def after (c : Char) : Pattern → Pattern
  | never => never
  | nothing => never
  | one isIn => if isIn c then nothing else never
  | seq p q =>
    let inFirst := andThen (p.after c) q
    if p.isNullable then orElse inFirst (q.after c) else inFirst
  | either p q => orElse (p.after c) (q.after c)
  | many p => andThen (p.after c) (many p)

def accepts (p : Pattern) (cs : List Char) : Bool := (cs.foldl (fun p c => p.after c) p).isNullable

end Pattern

end Tableflow.Text
