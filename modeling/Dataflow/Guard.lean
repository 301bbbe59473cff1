import Dataflow.Mapping

/-!
# Guards

A guard checks the values of one target whose declared types leave open whether
they fit.  The guards of an edge form a plan, which looks at the guarded targets
in name order and hands the values on as they are.
-/

namespace Dataflow

/-- A check of the values for one target. -/
structure Guard where
  /-- The text of the guarded mapping. -/
  mapping : String
  /-- The target, empty for the whole input. -/
  field : String
  /-- The declared type of the target. -/
  expected : Ty
deriving DecidableEq

/-- Hands a value on if it fits the declared type. -/
def Guard.check (guard : Guard) (value : Value) : Except Error Value :=
  if value.fits guard.expected then
    .ok value
  else
    .error (.runtimeType guard.mapping value.type.text guard.expected.text)

/-- The guards of an edge.  A plan that was built guard by guard has each under
the name of its target. -/
structure GuardPlan where
  guards : Table Guard
deriving DecidableEq

namespace GuardPlan

/-- The plan without guards. -/
def empty : GuardPlan := ⟨.empty⟩

/-- Adds a guard, in place of the one for its target. -/
def insert (plan : GuardPlan) (guard : Guard) : GuardPlan :=
  ⟨plan.guards.insert guard.field guard⟩

/-- The guard for a target. -/
def guard? (plan : GuardPlan) (field : String) : Option Guard :=
  plan.guards.find? field

/-- Checks the value of every guarded target that has one.  The value is taken out of
the fields and put back once it has passed. -/
def apply (plan : GuardPlan) (fields : Fields) : Except Error Fields :=
  plan.guards.entries.foldlM (fun fields entry =>
    match fields.find? entry.1 with
    | none => .ok fields
    | some value => do
      let checked ← entry.2.check value
      return (fields.erase entry.1).insert entry.1 checked) fields

end GuardPlan

end Dataflow
