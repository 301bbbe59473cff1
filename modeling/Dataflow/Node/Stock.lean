import Dataflow.Node

/-!
# Ready-made nodes

Small nodes for putting graphs together.  Those that can fail take the key they
report themselves under.
-/

namespace Dataflow.Node

/-- Hands every value on. -/
def pass (type : Ty) : Node where
  input := type
  output := type
  run := .ok

/-- Hands every value on, as a value of another type. -/
def identity (input output : Ty) : Node where
  input := input
  output := output
  run := .ok

/-- Makes the same value of every value. -/
def const (input output : Ty) (value : Value) : Node where
  input := input
  output := output
  run _ := .ok value

/-- The number in a value, or zero. -/
def numberOrZero (value : Value) : Int64 := value.asInt?.getD 0

/-- Adds a number, in 64 bits with wrapping. -/
def add (input output : Ty) (amount : Int64) : Node where
  input := input
  output := output
  run value := .ok (.int (numberOrZero value + amount))

/-- Fails on every value. -/
def fail (key : String) (input output : Ty) (message : String) : Node where
  input := input
  output := output
  run _ := .error (.node key message)

/-- Fails on values that equal a given one and hands all others on. -/
def failOn (key : String) (input output : Ty) (refused : Value) : Node where
  input := input
  output := output
  run value := if value.same refused then .error (.node key "rejected") else .ok value

/-- Takes a part of every value. -/
def take (input output : Ty) (name : String) : Node where
  input := input
  output := output
  run value := (value.take name).mapError .access

/-- Stores every value in a map of its own. -/
def wrap (input output : Ty) (name : String) (type : Ty) : Node where
  input := input
  output := output
  run value := ((MapValue.ofEntries type [(name, value)]).map MapValue.toValue).mapError .access

/-- Stores every value in a list of its own. -/
def single (input output : Ty) (elem : Ty) : Node where
  input := input
  output := output
  run value := ((ListValue.ofItems elem [value]).map ListValue.toValue).mapError .access

/-- Puts a box around every value. -/
def box (input output : Ty) : Node where
  input := input
  output := output
  run value := .ok (.boxed value)

/-- Takes every box off every value. -/
def unbox (input output : Ty) : Node where
  input := input
  output := output
  run value := .ok value.unboxed

/-- Makes the zero value of its output type. -/
def zero (input output : Ty) : Node where
  input := input
  output := output
  run _ := .ok output.zero

/-- Makes the word for the kind of every value. -/
def kindOf (input output : Ty) : Node where
  input := input
  output := output
  run value := .ok (.string value.kind.word)

/-- Hands values on, and streams through a transducer. -/
def streaming (type : Ty) (transducer : Transducer Value Value) : Node where
  input := type
  output := type
  run := .ok
  transducer := transducer

end Dataflow.Node
