import SignalBroker.Access.Level
import SignalBroker.Path.Pattern
import SignalBroker.Table

namespace SignalBroker

structure Grant where
  pattern : Pattern
  level : AccessLevel

structure Grants where
  table : Table String Grant

namespace Grants

def empty : Grants := ⟨.empty⟩

instance : EmptyCollection Grants := ⟨empty⟩
instance : Inhabited Grants := ⟨empty⟩

def insert (g : Grants) (pattern : Pattern) (level : AccessLevel) : Grants :=
  ⟨g.table.insert pattern.text ⟨pattern, level⟩⟩

def canRead (g : Grants) (path : String) : Bool :=
  g.table.values.any fun grant => grant.level.canRead && grant.pattern.matches path

def canWrite (g : Grants) (path : String) : Bool :=
  g.table.values.any fun grant => grant.level.canWrite && grant.pattern.matches path

def size (g : Grants) : Nat := g.table.size

def isEmpty (g : Grants) : Bool := g.table.isEmpty

def toTable (g : Grants) : Table String AccessLevel :=
  g.table.map fun _ grant => grant.level

def compileStep (state : Grants × List PatternError) (entry : String × AccessLevel) :
    Grants × List PatternError :=
  match Pattern.ofText entry.1 with
  | .ok pattern => (state.1.insert pattern entry.2, state.2)
  | .error e => (state.1, state.2 ++ [e])

/-- The grants of a list of pattern texts and levels, and the faults of the texts that are no
patterns, in their order. -/
def compile (entries : List (String × AccessLevel)) : Grants × List PatternError :=
  entries.foldl compileStep (empty, [])

/-- The grants of a table; texts that are no patterns grant nothing. -/
def ofTable (t : Table String AccessLevel) : Grants :=
  (compile t.toList).1

end Grants

end SignalBroker
