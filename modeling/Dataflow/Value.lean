import Dataflow.Ordered
import Dataflow.Ty

/-!
# Values

A value carries its own type, so one held where an open type is declared can
still be checked.  Lists and maps carry their declared types even when empty,
and records carry their record type.
-/

namespace Dataflow

/-! ## Scalars and keys -/

/-- A double-precision number, as its 64 bits. -/
structure Double where
  bits : UInt64
deriving DecidableEq

namespace Double

/-- Positive zero. -/
def zero : Double := ⟨0⟩

/-- The not-a-number value that is used where only one is needed. -/
def nan : Double := ⟨0x7ff8000000000000⟩

/-- Whether the bits mean no number: a full exponent and a fraction. -/
def isNaN (d : Double) : Bool :=
  d.bits &&& 0x7fffffffffffffff > 0x7ff0000000000000

/-- Whether the bits mean a zero of either sign. -/
def isZero (d : Double) : Bool :=
  d.bits &&& 0x7fffffffffffffff = 0

/-- Numerical equality: no number equals not-a-number, itself included, and the
two zeros are equal. -/
def same (a b : Double) : Bool :=
  !a.isNaN && !b.isNaN && (a.bits = b.bits || a.isZero && b.isZero)

end Double

/-- A map key. -/
inductive Key
  | bool (b : Bool)
  | int (i : Int64)
  | string (s : String)
deriving DecidableEq

namespace Key

/-- The type of a key. -/
def type : Key → Ty
  | .bool _ => .bool
  | .int _ => .int
  | .string _ => .string

/-- The text of a key. -/
def text : Key → String
  | .bool b => if b then "true" else "false"
  | .int i => toString i.toInt
  | .string s => s

/-- Truth values come before numbers and numbers before texts.  Within a kind,
false comes before true, numbers go by size and texts by code points. -/
protected def compare : Key → Key → Ordering
  | .bool a, .bool b => compare a b
  | .bool _, _ => .lt
  | .int _, .bool _ => .gt
  | .int a, .int b => compare a b
  | .int _, .string _ => .lt
  | .string a, .string b => compare a b
  | .string _, _ => .gt

instance : Ord Key := ⟨Key.compare⟩

end Key

/-! ## Values -/

/-- A value. -/
inductive Value
  | null
  | bool (b : Bool)
  | int (i : Int64)
  | float (d : Double)
  | string (s : String)
  /-- A list with its element type. -/
  | list (elem : Ty) (items : List Value)
  /-- A map with its key and value types; the entries are in key order. -/
  | map (key value : Ty) (entries : List (Key × Value))
  /-- A record, with one value for each declared field, in order. -/
  | record (shape : RecordType) (values : List Value)
  | boxed (inner : Value)

instance : Inhabited Value := ⟨.null⟩

namespace Value

/-- The coarse shape of a value. -/
def kind : Value → Kind
  | .null => .null
  | .bool _ => .bool
  | .int _ => .int
  | .float _ => .float
  | .string _ => .string
  | .list .. => .list
  | .map .. => .map
  | .record .. => .record
  | .boxed _ => .boxed

/-- The type that a value has of its own. -/
def type : Value → Ty
  | .null => .null
  | .bool _ => .bool
  | .int _ => .int
  | .float _ => .float
  | .string _ => .string
  | .list elem _ => .list elem
  | .map key value _ => .map key value
  | .record shape _ => .record shape
  | .boxed inner => .boxed inner.type

/-- The value inside every box around it. -/
def unboxed : Value → Value
  | .boxed inner => inner.unboxed
  | value => value

/-- The number, if the value is one. -/
def asInt? : Value → Option Int64
  | .int i => some i
  | _ => none

mutual

/-- Whether two values are equal.  Types count, also those of empty lists and
maps, and private fields count; floats are compared as numbers. -/
def same : Value → Value → Bool
  | .null, .null => true
  | .bool a, .bool b => a == b
  | .int a, .int b => a == b
  | .float a, .float b => a.same b
  | .string a, .string b => a == b
  | .list elem items, .list elem' items' => elem = elem' && sameAll items items'
  | .map key value entries, .map key' value' entries' =>
    key = key' && value = value' && sameEntries entries entries'
  | .record shape values, .record shape' values' =>
    shape = shape' && sameAll values values'
  | .boxed a, .boxed b => same a b
  | _, _ => false

/-- Whether two lists hold equal values. -/
def sameAll : List Value → List Value → Bool
  | [], [] => true
  | a :: rest, b :: rest' => same a b && sameAll rest rest'
  | _, _ => false

/-- Whether two lists hold equal entries. -/
def sameEntries : List (Key × Value) → List (Key × Value) → Bool
  | [], [] => true
  | (k, a) :: rest, (k', b) :: rest' => k = k' && same a b && sameEntries rest rest'
  | _, _ => false

end

end Value

/-! ## Zero values -/

mutual

/-- The value that a type starts from: nothing behind an open type, and
otherwise zero, empty, or a record of zeros. -/
def Ty.zero : Ty → Value
  | .any | .null | .interface _ => .null
  | .bool => .bool false
  | .int => .int 0
  | .float => .float .zero
  | .string => .string ""
  | .list elem => .list elem []
  | .map key value => .map key value []
  | .record ⟨name, fields, capabilities⟩ => .record ⟨name, fields, capabilities⟩ (Ty.zeros fields)
  | .boxed inner => .boxed inner.zero

/-- The zero values of the fields of a record. -/
def Ty.zeros : List Field → List Value
  | [] => []
  | ⟨_, type, _⟩ :: rest => type.zero :: Ty.zeros rest

end

end Dataflow
