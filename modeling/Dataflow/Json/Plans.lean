import Dataflow.Graph
import Dataflow.Guard
import Dataflow.Json.Types

/-!
# Mappings, edges and guards as JSON

Empty names of parts and empty lists of mappings are left out when writing and
are what missing members mean when reading.
-/

namespace Dataflow

/-- A member that is left out if its text is empty. -/
def Json.unlessEmpty (name text : String) : List (String × Json) :=
  if text = "" then [] else [(name, .string text)]

/-- Reads a text that may be missing. -/
def Json.stringOrEmpty? : Option Json → Option String
  | none => some ""
  | some json => json.asString?

/-! ## Mappings -/

/-- A mapping as JSON. -/
def Mapping.toJson (mapping : Mapping) : Json :=
  .object (("from_node", .string mapping.node) ::
    (Json.unlessEmpty "from" mapping.source ++ Json.unlessEmpty "to" mapping.target))

/-- Reads a mapping. -/
def Mapping.ofJson? : Json → Option Mapping
  | .object members => do
    let node ← (← Json.member? "from_node" members).asString?
    let source ← Json.stringOrEmpty? (Json.member? "from" members)
    let target ← Json.stringOrEmpty? (Json.member? "to" members)
    return { node, source, target }
  | .array items => do
    match ← items.mapM Json.asString? with
    | [node] => return { node }
    | [node, source] => return { node, source }
    | [node, source, target] => return { node, source, target }
    | _ => none
  | _ => none

/-- Reads some mappings. -/
def Mapping.listOfJson? (json : Json) : Option (List Mapping) := do
  (← json.asArray?).mapM Mapping.ofJson?

/-! ## Edges -/

/-- An edge as JSON. -/
def Edge.toJson (edge : Edge) : Json :=
  .object (("from", .string edge.source) :: ("to", .string edge.target) ::
    (if edge.mappings.isEmpty then [] else [("mappings", .array (edge.mappings.map Mapping.toJson))]))

/-- Reads an edge. -/
def Edge.ofJson? : Json → Option Edge
  | .object members => do
    let source ← (← Json.member? "from" members).asString?
    let target ← (← Json.member? "to" members).asString?
    match Json.member? "mappings" members with
    | none => return { source, target }
    | some json => return ⟨source, target, ← Mapping.listOfJson? json⟩
  | .array [.string source, .string target] => some { source, target }
  | .array [.string source, .string target, mappings] =>
    (Mapping.listOfJson? mappings).map (⟨source, target, ·⟩)
  | _ => none

/-! ## Guards -/

/-- A guard as JSON. -/
def Guard.toJson (guard : Guard) : Json :=
  .object [("mapping", .string guard.mapping), ("field", .string guard.field),
    ("expected", guard.expected.toJson)]

/-- Reads a guard. -/
def Guard.ofJson? : Json → Option Guard
  | .object members => do
    let mapping ← (← Json.member? "mapping" members).asString?
    let field ← (← Json.member? "field" members).asString?
    let expected ← Ty.ofJson? (← Json.member? "expected" members)
    return ⟨mapping, field, expected⟩
  | .array [.string mapping, .string field, expected] =>
    (Ty.ofJson? expected).map (⟨mapping, field, ·⟩)
  | _ => none

/-- A plan as JSON. -/
def GuardPlan.toJson (plan : GuardPlan) : Json :=
  .object [("guards", .object (plan.guards.entries.map fun e => (e.1, e.2.toJson)))]

/-- Reads the guards of a plan under the names they are listed under. -/
def GuardPlan.guardsOfJson? : Json → Option (Table Guard)
  | .object members => do
    return .ofList (← members.mapM fun m => return (m.1, ← Guard.ofJson? m.2))
  | _ => none

/-- Reads a plan. -/
def GuardPlan.ofJson? : Json → Option GuardPlan
  | .object members => do
    return ⟨← guardsOfJson? (← Json.member? "guards" members)⟩
  | .array [guards] => (guardsOfJson? guards).map (⟨·⟩)
  | _ => none

/-! ## Words -/

/-- A verdict as JSON. -/
def Fit.toJson (fit : Fit) : Json := .string fit.word

/-- Reads a verdict. -/
def Fit.ofJson? (json : Json) : Option Fit := do
  let word ← json.asWord?
  Fit.all.find? (·.word = word)

/-- A trigger as JSON. -/
def Trigger.toJson (trigger : Trigger) : Json := .string trigger.word

/-- Reads a trigger. -/
def Trigger.ofJson? (json : Json) : Option Trigger := do
  Trigger.ofWord? (← json.asWord?)

end Dataflow
