/-!
Log entries, and computations that leave a log beside their value.
-/

namespace Tableflow

namespace Log

inductive Level where
  | debug | info | warn
  deriving DecidableEq, Repr

/-- The part of the program that an entry comes from. -/
inductive Origin where
  | stages | pipeline | program | sources
  deriving DecidableEq, Repr

structure Entry where
  level : Level
  origin : Origin
  text : String
  deriving DecidableEq, Repr

end Log

/-- A value and the entries logged on the way to it, oldest first. -/
@[ext] structure Logged (α : Type) where
  value : α
  log : List Log.Entry

namespace Logged

variable {α β : Type}

instance : Monad Logged where
  pure a := ⟨a, []⟩
  bind x f :=
    let y := f x.value
    ⟨y.value, x.log ++ y.log⟩

def entry (level : Log.Level) (origin : Log.Origin) (text : String) : Logged Unit :=
  ⟨(), [⟨level, origin, text⟩]⟩

@[simp] theorem value_pure (a : α) : (pure a : Logged α).value = a := rfl

@[simp] theorem log_pure (a : α) : (pure a : Logged α).log = [] := rfl

@[simp] theorem value_bind (x : Logged α) (f : α → Logged β) :
    (x >>= f).value = (f x.value).value := rfl

@[simp] theorem log_bind (x : Logged α) (f : α → Logged β) :
    (x >>= f).log = x.log ++ (f x.value).log := rfl

end Logged

end Tableflow
