import Dataflow.AccessError
import Dataflow.Ty.Record

/-!
# Parts of types

The declared type of a named part.  The empty name stands for the whole type.
A map has a part for every name if its keys are text; a record, boxed or not,
has its shown fields.  A box around a map hides its keys.
-/

namespace Dataflow.Ty

/-- The declared type of a part. -/
def part (type : Ty) (name : String) : Except AccessError Ty :=
  if name = "" then
    .ok type
  else
    match type with
    | .map key value =>
      if key = .string then
        .ok value
      else
        .error ⟨.unsupportedKeyType, s!"type {type.text} is not a map with string keys"⟩
    | _ =>
      match type.unboxed with
      | .record shape =>
        match shape.field? name with
        | none => .error ⟨.fieldNotFound, s!"type {type.text} has no field {name}"⟩
        | some field =>
          if field.isShown then
            .ok field.type
          else
            .error ⟨.fieldNotAccessible, s!"type {type.text} has a private field {name}"⟩
      | _ => .error ⟨.unsupportedShape, s!"type {type.text} is not a record"⟩

end Dataflow.Ty
