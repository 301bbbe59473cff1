import Dataflow.Json
import Dataflow.Ty

/-!
# Types as JSON

A scalar type is a word and any other type is an object with one member, named
for the kind.  A structure is an object with a member for each part; what has a
default may be missing, and members nobody asked for are ignored.  A structure
may also be an array of its parts in order.
-/

namespace Dataflow

/-! ## Words -/

/-- The kind of a word. -/
def Kind.ofJson? (json : Json) : Option Kind := do
  let word ← json.asWord?
  Kind.all.find? (·.word = word)

/-- A kind as JSON. -/
def Kind.toJson (kind : Kind) : Json := .string kind.word

/-- The word for a visibility. -/
def Visibility.word : Visibility → String
  | .shown => "public"
  | .hidden => "private"

/-- A visibility as JSON. -/
def Visibility.toJson (visibility : Visibility) : Json := .string visibility.word

/-- The visibility of a word. -/
def Visibility.ofJson? (json : Json) : Option Visibility := do
  let word ← json.asWord?
  [Visibility.shown, .hidden].find? (·.word = word)

/-! ## Capabilities and interfaces -/

/-- A set of capabilities as JSON. -/
def Capabilities.toJson (set : Capabilities) : Json := .strings set.names

/-- Reads a set of capabilities; repeated names count once. -/
def Capabilities.ofJson? (json : Json) : Option Capabilities := do
  let items ← json.asArray?
  return .ofList (← items.mapM Json.asString?)

/-- Reads a set of capabilities that may be missing. -/
def Capabilities.ofMember? : Option Json → Option Capabilities
  | none => some .empty
  | some json => ofJson? json

/-- An interface as JSON. -/
def Interface.toJson (interface : Interface) : Json :=
  .object [("name", .string interface.name), ("capabilities", interface.capabilities.toJson)]

/-- Reads an interface. -/
def Interface.ofJson? : Json → Option Interface
  | .object members => do
    let name ← (← Json.member? "name" members).asString?
    return ⟨name, ← Capabilities.ofMember? (Json.member? "capabilities" members)⟩
  | .array (.string name :: rest) =>
    match rest with
    | [] => some ⟨name, .empty⟩
    | [capabilities] => (Capabilities.ofJson? capabilities).map (⟨name, ·⟩)
    | _ => none
  | _ => none

/-! ## Writing types -/

mutual

/-- A type as JSON. -/
def Ty.toJson : Ty → Json
  | .any => .string "any"
  | .null => .string "null"
  | .bool => .string "bool"
  | .int => .string "int"
  | .float => .string "float"
  | .string => .string "string"
  | .list elem => .object [("list", elem.toJson)]
  | .map key value => .object [("map", .object [("key", key.toJson), ("value", value.toJson)])]
  | .record ⟨name, fields, capabilities⟩ => .object [("record", .object
      [("name", .string name), ("fields", .array (Ty.fieldsToJson fields)),
        ("capabilities", capabilities.toJson)])]
  | .interface shape => .object [("interface", shape.toJson)]
  | .boxed inner => .object [("boxed", inner.toJson)]

/-- The fields of a record as JSON. -/
def Ty.fieldsToJson : List Field → List Json
  | [] => []
  | ⟨name, type, visibility⟩ :: rest =>
    .object [("name", .string name), ("ty", type.toJson), ("visibility", visibility.toJson)]
      :: Ty.fieldsToJson rest

end

/-- A field as JSON. -/
def Field.toJson (field : Field) : Json :=
  .object [("name", .string field.name), ("ty", field.type.toJson),
    ("visibility", field.visibility.toJson)]

/-- A record type as JSON. -/
def RecordType.toJson (shape : RecordType) : Json :=
  .object [("name", .string shape.name), ("fields", .array (Ty.fieldsToJson shape.fields)),
    ("capabilities", shape.capabilities.toJson)]

/-! ## Reading types -/

/-- The type of a word. -/
def Ty.ofWord? : String → Option Ty
  | "any" => some .any
  | "null" => some .null
  | "bool" => some .bool
  | "int" => some .int
  | "float" => some .float
  | "string" => some .string
  | _ => none

/-- Reads a visibility that may be missing. -/
def Visibility.ofMember? : Option Json → Option Visibility
  | none => some .shown
  | some json => ofJson? json

mutual

/-- Reads a type. -/
def Ty.ofJson? : Json → Option Ty
  | .string word => Ty.ofWord? word
  | .object [("list", elem)] => (Ty.ofJson? elem).map .list
  | .object [("boxed", inner)] => (Ty.ofJson? inner).map .boxed
  | .object [("interface", shape)] => (Interface.ofJson? shape).map .interface
  | .object [("record", shape)] => (RecordType.ofJson? shape).map .record
  | .object [("map", .object members)] => do
    let key ← Ty.ofMember? "key" members
    let value ← Ty.ofMember? "value" members
    return .map key value
  | .object [(word, .null)] => Ty.ofWord? word
  | _ => none

/-- Reads the member of a name as a type. -/
def Ty.ofMember? (name : String) : List (String × Json) → Option Ty
  | [] => none
  | (n, json) :: rest => if n = name then Ty.ofJson? json else Ty.ofMember? name rest

/-- Reads a record type. -/
def RecordType.ofJson? : Json → Option RecordType
  | .object members => do
    let name ← (← Json.member? "name" members).asString?
    let fields ← Ty.fieldsOfMember? members
    return ⟨name, fields, ← Capabilities.ofMember? (Json.member? "capabilities" members)⟩
  | .array [.string name, .array fields] => do
    return ⟨name, ← Ty.fieldsOfJson? fields, .empty⟩
  | .array [.string name, .array fields, capabilities] => do
    return ⟨name, ← Ty.fieldsOfJson? fields, ← Capabilities.ofJson? capabilities⟩
  | _ => none

/-- Reads the fields of a record from its members. -/
def Ty.fieldsOfMember? : List (String × Json) → Option (List Field)
  | [] => none
  | (n, json) :: rest =>
    if n = "fields" then
      match json with
      | .array fields => Ty.fieldsOfJson? fields
      | _ => none
    else
      Ty.fieldsOfMember? rest

/-- Reads the fields of a record. -/
def Ty.fieldsOfJson? : List Json → Option (List Field)
  | [] => some []
  | json :: rest => do
    let field ← Field.ofJson? json
    return field :: (← Ty.fieldsOfJson? rest)

/-- Reads a field. -/
def Field.ofJson? : Json → Option Field
  | .object members => do
    let name ← (← Json.member? "name" members).asString?
    let type ← Ty.ofMember? "ty" members
    return ⟨name, type, ← Visibility.ofMember? (Json.member? "visibility" members)⟩
  | .array [.string name, type] => do
    return ⟨name, ← Ty.ofJson? type, .shown⟩
  | .array [.string name, type, visibility] => do
    return ⟨name, ← Ty.ofJson? type, ← Visibility.ofJson? visibility⟩
  | _ => none

end

end Dataflow
