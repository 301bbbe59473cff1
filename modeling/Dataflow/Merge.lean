import Dataflow.Error
import Dataflow.Value.Container

/-!
# Merging values

Several values for one target are merged by a policy, which is looked up by the
declared type of the target first and by the kind of that type second.  Maps are
united and lists are joined unless another policy is registered.  Whatever goes
wrong while merging is reported as a merge error for the target.
-/

namespace Dataflow

/-- Makes one value of a declared type from several. -/
abbrev Policy := Ty → List Value → Except Error Value

namespace Policy

/-- What a policy reports when its values do not go together; the target is
filled in by the registry. -/
def conflict (reason : String) : Error := .merge "" "" 0 reason

/-- Adds the entries of a map to those united so far. -/
def uniteInto (united : MapValue) (entries : List (Key × Value)) : Except Error MapValue :=
  entries.foldlM (fun united entry =>
    if united.contains entry.1 then
      .error (conflict s!"duplicated key {entry.1.text} found")
    else
      (united.insert entry.1 entry.2).mapError .access) united

/-- The union of maps without common keys. -/
def union : Policy
  | .map key value, values => do
    let united ← values.foldlM (fun united item =>
      match item with
      | .map _ _ entries => uniteInto united entries
      | other => .error (.access ⟨.typeMismatch, s!"{other.type.text} is not a map"⟩))
      (MapValue.empty key value)
    return united.toValue
  | type, _ => .error (.access ⟨.unsupportedShape, s!"{type.text} is not a map type"⟩)

/-- The lists one after another. -/
def concat : Policy
  | .list elem, values => do
    let joined ← values.foldlM (fun joined item =>
      match item with
      | .list _ items => (joined.pushAll items).mapError .access
      | other => .error (.access ⟨.typeMismatch, s!"{other.type.text} is not a list"⟩))
      (ListValue.empty elem)
    return joined.toValue
  | type, _ => .error (.access ⟨.unsupportedShape, s!"{type.text} is not a list type"⟩)

end Policy

/-- The policies in force, by type and by kind; each type and kind has one at
most. -/
structure MergeRegistry where
  byType : List (Ty × Policy)
  byKind : List (Kind × Policy)

namespace MergeRegistry

/-- The registry without policies. -/
def empty : MergeRegistry := ⟨[], []⟩

/-- Registers a policy for one type, in place of the one it had. -/
def registerType (registry : MergeRegistry) (type : Ty) (policy : Policy) : MergeRegistry :=
  { registry with byType := (type, policy) :: registry.byType.filter (·.1 ≠ type) }

/-- Registers a policy for all types of a kind, in place of the one it had. -/
def registerKind (registry : MergeRegistry) (kind : Kind) (policy : Policy) : MergeRegistry :=
  { registry with byKind := (kind, policy) :: registry.byKind.filter (·.1 ≠ kind) }

/-- The registry that unites maps and joins lists. -/
def standard : MergeRegistry :=
  (empty.registerKind .map Policy.union).registerKind .list Policy.concat

instance : Inhabited MergeRegistry := ⟨standard⟩

/-- The policy for a type: its own, or else that of its kind. -/
def policy? (registry : MergeRegistry) (type : Ty) : Option Policy :=
  ((registry.byType.find? (·.1 = type)).map (·.2)).or
    ((registry.byKind.find? (·.1 = type.kind)).map (·.2))

/-- The values for a target as one value.  One value alone is handed on as it
is. -/
def merge (registry : MergeRegistry) (field : String) (type : Ty) (values : List Value) :
    Except Error Value :=
  let refuse (reason : String) : Error := .merge field type.text values.length reason
  match values with
  | [] => .error (refuse "no value to merge")
  | [value] => .ok value
  | _ =>
    match registry.policy? type with
    | none => .error (refuse "no merge policy for this type")
    | some policy => (policy type values).mapError fun
      | .merge _ _ _ reason => refuse reason
      | other => refuse other.message

end MergeRegistry

end Dataflow
