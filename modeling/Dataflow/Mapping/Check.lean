import Dataflow.Guard
import Dataflow.Ty.Part

/-!
# Checking mappings

Whether the mappings of an edge make sense for the types it connects.  Each
mapping is resolved to two declared types.  A pair that never fits rejects the
edge, and a pair that may fit puts a guard on the target.
-/

namespace Dataflow

namespace Mapping

/-- The two declared types that a mapping connects. -/
def resolve (predecessor successor : Ty) (mapping : Mapping) : Except Error (Ty × Ty) := do
  let reject (e : AccessError) : Error := .staticType mapping.text e.message
  let source ← (predecessor.part mapping.source).mapError reject
  let target ← (successor.part mapping.target).mapError reject
  return (source, target)

/-- The guard that a mapping needs, if it needs one. -/
def guard? (predecessor successor : Ty) (mapping : Mapping) : Except Error (Option Guard) := do
  let (source, target) ← mapping.resolve predecessor successor
  match source.fit target with
  | .always => return none
  | .conditional => return some ⟨mapping.text, mapping.target, target⟩
  | .never => throw (.staticType mapping.text
      s!"field type {source.text} is never assignable to {target.text}")

/-- The guards that some mappings need, in the order of the mappings. -/
def guards (predecessor successor : Ty) (mappings : List Mapping) :
    Except Error GuardPlan :=
  mappings.foldlM (fun plan mapping => do
    match ← mapping.guard? predecessor successor with
    | none => return plan
    | some guard => return plan.insert guard) GuardPlan.empty

/-- Checks the mappings of an edge and gives their guards, if there are any.
Faults of the whole set come before those of single mappings. -/
def check (predecessor successor : Ty) (mappings : List Mapping) :
    Except Error (Option GuardPlan) := do
  let readsWhole := mappings.any Mapping.readsWhole
  let fillsWhole := mappings.any Mapping.fillsWhole
  if mappings.isEmpty then
    throw (.structural .noMappings)
  if readsWhole && fillsWhole then
    throw (.structural (.wholeToWhole (textAll mappings)))
  if !fillsWhole && !successor.isConstructible then
    throw (.staticType (textAll mappings)
      s!"successor input type should be a record or map, actual: {successor.text}")
  if !readsWhole && !predecessor.isConstructible then
    throw (.staticType (textAll mappings)
      s!"predecessor output type should be a record or map, actual: {predecessor.text}")
  let plan ← guards predecessor successor mappings
  return if plan.guards.isEmpty then none else some plan

/-- Checks an edge that passes the whole output of a node on as a whole input,
and gives the guard it needs, if it needs one. -/
def checkWhole (node : String) (predecessor successor : Ty) : Except Error (Option Guard) :=
  let mapping : Mapping := { node }
  match predecessor.fit successor with
  | .always => .ok none
  | .conditional => .ok (some ⟨mapping.text, "", successor⟩)
  | .never => .error (.staticType mapping.text
      s!"output type {predecessor.text} is never assignable to input type {successor.text}")

end Mapping

end Dataflow
