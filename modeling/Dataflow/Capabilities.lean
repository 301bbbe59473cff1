import Dataflow.Ordered

/-!
# Capability sets

A capability is a name.  Records provide sets of capabilities and interfaces
ask for them.
-/

namespace Dataflow

/-- A finite set of capability names. -/
structure Capabilities where
  /-- One entry for each name of the set. -/
  marks : Table Unit
deriving DecidableEq

namespace Capabilities

/-- The empty set. -/
def empty : Capabilities := ⟨.empty⟩

instance : Inhabited Capabilities := ⟨empty⟩

/-- The names of the set, in order. -/
def names (set : Capabilities) : List String :=
  set.marks.entries.map (·.1)

/-- Adds a name to a set. -/
def insert (set : Capabilities) (name : String) : Capabilities :=
  ⟨set.marks.insert name ()⟩

/-- The set of the names of a list. -/
def ofList (names : List String) : Capabilities :=
  names.foldl insert empty

/-- Whether every name of one set is in the other. -/
def subset (set other : Capabilities) : Bool :=
  set.names.all (other.names.contains ·)

/-- Whether the set has no name. -/
def isEmpty (set : Capabilities) : Bool :=
  set.names.isEmpty

end Capabilities

end Dataflow
