import Tableflow.Table.Basic

/-!
What a run can load tables from: external sources, and the signals published so far. A signal is
published once and never changes, and it hides a source of the same name.
-/

namespace Tableflow

structure Context where
  sources : OrderedMap Table
  signals : OrderedMap Table

namespace Context

def empty : Context := ⟨.empty, .empty⟩

instance : Inhabited Context := ⟨empty⟩

def addSource (c : Context) (name : String) (table : Table) : Context :=
  { c with sources := c.sources.insert name table }

def signal? (c : Context) (name : String) : Option Table := c.signals.get? name

def lookup? (c : Context) (name : String) : Option Table :=
  (c.signals.get? name).or (c.sources.get? name)

/-- Publish a table under a signal; nothing if the signal is taken. -/
def publish? (c : Context) (name : String) (table : Table) : Option Context :=
  if c.signals.contains name then none
  else some { c with signals := c.signals.insert name table }

end Context

end Tableflow
