import Dataflow.Ty

/-!
# Declaring record types

A record type is declared field by field.  Declaring a name again replaces its
type and visibility and keeps its place.  Lookups by name find the first field
of that name.
-/

namespace Dataflow

namespace FieldOf

variable {τ : Type}

/-- Whether the field can be read and written from outside its record. -/
def isShown (field : FieldOf τ) : Bool :=
  field.visibility = .shown

end FieldOf

namespace RecordOf

variable {τ : Type}

/-- The record type without fields and capabilities. -/
def named (name : String) : RecordOf τ := ⟨name, [], .empty⟩

/-- Puts a field in the place of the first one of its name, or at the end. -/
def putField (field : FieldOf τ) : List (FieldOf τ) → List (FieldOf τ)
  | [] => [field]
  | f :: rest => if f.name = field.name then field :: rest else f :: putField field rest

/-- Declares a field. -/
def declare (record : RecordOf τ) (field : FieldOf τ) : RecordOf τ :=
  { record with fields := putField field record.fields }

/-- Declares a field that can be read and written from outside. -/
def field (record : RecordOf τ) (name : String) (type : τ) : RecordOf τ :=
  record.declare ⟨name, type, .shown⟩

/-- Declares a field that is closed to the outside. -/
def privateField (record : RecordOf τ) (name : String) (type : τ) : RecordOf τ :=
  record.declare ⟨name, type, .hidden⟩

/-- Declares a capability. -/
def provide (record : RecordOf τ) (capability : String) : RecordOf τ :=
  { record with capabilities := record.capabilities.insert capability }

/-- The place of the first field of a name. -/
def position? (record : RecordOf τ) (name : String) : Option Nat :=
  record.fields.findIdx? (·.name = name)

/-- The first field of a name. -/
def field? (record : RecordOf τ) (name : String) : Option (FieldOf τ) :=
  record.fields.find? (·.name = name)

end RecordOf

namespace Interface

/-- The interface that asks for nothing. -/
def named (name : String) : Interface := ⟨name, .empty⟩

/-- Asks for one more capability. -/
def require (interface : Interface) (capability : String) : Interface :=
  { interface with capabilities := interface.capabilities.insert capability }

/-- Whether a set of capabilities covers the interface. -/
def isSatisfiedBy (interface : Interface) (provided : Capabilities) : Bool :=
  interface.capabilities.subset provided

end Interface

end Dataflow
