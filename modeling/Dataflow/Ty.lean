import Dataflow.Capabilities

/-!
# Declared types

What a node, a record field, a list or a map declares about its values.  `any`
and interfaces are *open*: their values have some other type of their own.
Record types are structural, so two records of one name with different fields
are different types.
-/

namespace Dataflow

/-! ## The types -/

/-- Whether a field can be read and written from outside its record. -/
inductive Visibility
  | shown
  | hidden
deriving DecidableEq, Inhabited

/-- A record field, over whatever stands for types. -/
structure FieldOf (τ : Type) where
  name : String
  type : τ
  visibility : Visibility := .shown
deriving DecidableEq

/-- A record type, over whatever stands for types. -/
structure RecordOf (τ : Type) where
  name : String
  /-- The fields in declaration order. -/
  fields : List (FieldOf τ)
  /-- The capabilities that the record provides. -/
  capabilities : Capabilities
deriving DecidableEq

/-- A named set of capabilities that a type has to provide. -/
structure Interface where
  name : String
  capabilities : Capabilities
deriving DecidableEq

/-- A declared type. -/
inductive Ty
  /-- Any value at all. -/
  | any
  /-- The absence of a value. -/
  | null
  | bool
  | int
  | float
  | string
  /-- Sequences with one element type. -/
  | list (elem : Ty)
  /-- Mappings from keys to values. -/
  | map (key value : Ty)
  | record (shape : RecordOf Ty)
  /-- Values of every type that provides the capabilities. -/
  | interface (shape : Interface)
  /-- An owned box around another type. -/
  | boxed (inner : Ty)

/-- A record field. -/
abbrev Field := FieldOf Ty

/-- A record type. -/
abbrev RecordType := RecordOf Ty

instance : Inhabited Ty := ⟨.any⟩

/-! ## Equality -/

namespace Ty

mutual

/-- Whether two types are the same. -/
def same : Ty → Ty → Bool
  | .any, .any | .null, .null | .bool, .bool | .int, .int | .float, .float
  | .string, .string => true
  | .list a, .list b => same a b
  | .map k v, .map k' v' => same k k' && same v v'
  | .record ⟨name, fields, caps⟩, .record ⟨name', fields', caps'⟩ =>
    name == name' && sameFields fields fields' && caps == caps'
  | .interface a, .interface b => a == b
  | .boxed a, .boxed b => same a b
  | _, _ => false

/-- Whether two field lists are the same. -/
def sameFields : List Field → List Field → Bool
  | [], [] => true
  | ⟨name, type, visibility⟩ :: rest, ⟨name', type', visibility'⟩ :: rest' =>
    name == name' && same type type' && visibility == visibility' && sameFields rest rest'
  | _, _ => false

end

mutual

theorem same_iff : ∀ a b : Ty, same a b = true ↔ a = b
  | .any, b | .null, b | .bool, b | .int, b | .float, b | .string, b
  | .interface _, b => by cases b <;> simp [same]
  | .list a, b => by cases b <;> simp [same, same_iff a]
  | .map k v, b => by cases b <;> simp [same, same_iff k, same_iff v]
  | .record ⟨_, fields, _⟩, .record ⟨_, fields', _⟩ => by
    simp [same, sameFields_iff fields fields', and_assoc]
  | .record ⟨_, _, _⟩, .any | .record ⟨_, _, _⟩, .null | .record ⟨_, _, _⟩, .bool
  | .record ⟨_, _, _⟩, .int | .record ⟨_, _, _⟩, .float | .record ⟨_, _, _⟩, .string
  | .record ⟨_, _, _⟩, .list _ | .record ⟨_, _, _⟩, .map _ _
  | .record ⟨_, _, _⟩, .interface _ | .record ⟨_, _, _⟩, .boxed _ => by simp [same]
  | .boxed a, b => by cases b <;> simp [same, same_iff a]

theorem sameFields_iff : ∀ a b : List Field, sameFields a b = true ↔ a = b
  | [], b => by cases b <;> simp [sameFields]
  | ⟨_, _, _⟩ :: _, [] => by simp [sameFields]
  | ⟨_, type, _⟩ :: rest, ⟨_, type', _⟩ :: rest' => by
    simp [sameFields, same_iff type type', sameFields_iff rest rest', and_assoc]

end

instance : DecidableEq Ty := fun a b =>
  decidable_of_iff (same a b = true) (same_iff a b)

end Ty

/-! ## Shapes -/

/-- The coarse shape of a type or a value. -/
inductive Kind
  | any | null | bool | int | float | string | list | map | record | interface | boxed
deriving DecidableEq, Inhabited

/-- The kinds, in the order in which they are listed. -/
def Kind.all : List Kind :=
  [.any, .null, .bool, .int, .float, .string, .list, .map, .record, .interface, .boxed]

/-- The word for a kind. -/
def Kind.word : Kind → String
  | .any => "any"
  | .null => "null"
  | .bool => "bool"
  | .int => "int"
  | .float => "float"
  | .string => "string"
  | .list => "list"
  | .map => "map"
  | .record => "record"
  | .interface => "interface"
  | .boxed => "boxed"

namespace Ty

/-- The coarse shape of a type. -/
def kind : Ty → Kind
  | .any => .any
  | .null => .null
  | .bool => .bool
  | .int => .int
  | .float => .float
  | .string => .string
  | .list _ => .list
  | .map .. => .map
  | .record _ => .record
  | .interface _ => .interface
  | .boxed _ => .boxed

/-- The type inside every box around it. -/
def unboxed : Ty → Ty
  | .boxed inner => inner.unboxed
  | type => type

/-- Whether values of the type have some other type of their own. -/
def isOpen : Ty → Bool
  | .any | .interface _ => true
  | _ => false

/-- Whether a value of the type can be assembled part by part: it is a map, a
record or a boxed record. -/
def isConstructible : Ty → Bool
  | .map .. => true
  | type => type.unboxed.kind = .record

/-- The text that messages use for a type. -/
def text : Ty → String
  | .any => "Any"
  | .null => "Null"
  | .bool => "Bool"
  | .int => "Int"
  | .float => "Float"
  | .string => "String"
  | .list elem => "List<" ++ elem.text ++ ">"
  | .map key value => "Map<" ++ key.text ++ ", " ++ value.text ++ ">"
  | .record shape => shape.name
  | .interface shape => "dyn " ++ shape.name
  | .boxed inner => "Box<" ++ inner.text ++ ">"

end Ty

end Dataflow
