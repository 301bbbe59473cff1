import Dataflow.Assembly
import Dataflow.Guard
import Dataflow.Node
import Dataflow.Options

/-!
# Circuits

A circuit is a graph that was found to be valid, ready to run.  Its stations
stand in execution order, each with what makes its input; its wires stand in the
order in which the edges were declared, each with the guards it needs.  A
circuit keeps nothing from one run to the next.
-/

namespace Dataflow

/-- An edge ready to run. -/
structure Wire where
  source : String
  target : String
  /-- The mappings that are applied to each output. -/
  mappings : List Mapping
  /-- The guards that are checked at run time, if there are any. -/
  plan : Option GuardPlan

namespace Wire

/-- Checks extracted values against the guards of the wire. -/
def guarded (wire : Wire) (fields : Fields) : Except Error Fields :=
  match wire.plan with
  | none => .ok fields
  | some plan => plan.apply fields

/-- What an output contributes through the wire. -/
def apply (wire : Wire) (output : Value) : Except Error Fields := do
  wire.guarded (← Mapping.extract wire.mappings output)

end Wire

/-- What a station does with its input. -/
inductive Role
  /-- Hands the input of the circuit to its successors. -/
  | start
  /-- Hands its input out of the circuit. -/
  | finish
  /-- Works on its input. -/
  | work (node : Node)

/-- A node ready to run. -/
structure Station where
  key : String
  role : Role
  /-- Makes the input of the station. -/
  assembler : Assembler

/-- A graph ready to run. -/
structure Circuit where
  /-- The declared type of the circuit's input. -/
  input : Ty
  /-- The declared type of the circuit's output. -/
  output : Ty
  /-- The stations in execution order. -/
  stations : List Station
  /-- The wires in order of declaration. -/
  wires : List Wire
  options : CompileOptions

namespace Circuit

/-- The keys of the stations in execution order. -/
def order (circuit : Circuit) : List String :=
  circuit.stations.map (·.key)

/-- The wire from one station to another. -/
def wire? (circuit : Circuit) (source target : String) : Option Wire :=
  circuit.wires.find? fun w => w.source = source && w.target = target

/-- The wires into a station, in order of declaration. -/
def incoming (circuit : Circuit) (key : String) : List Wire :=
  circuit.wires.filter (·.target = key)

/-- The wires out of a station, in order of declaration. -/
def outgoing (circuit : Circuit) (key : String) : List Wire :=
  circuit.wires.filter (·.source = key)

/-- The wires that feed a station: all of them, or the one from the predecessor
that comes first in execution order. -/
def feeding (circuit : Circuit) (key : String) : List Wire :=
  let incoming := circuit.incoming key
  match circuit.options.trigger with
  | .allPredecessors => incoming
  | .anyPredecessor =>
    (circuit.order.findSome? fun k => incoming.find? (·.source = k)).toList

/-- The guard on the input of the circuit. -/
def inputGuard (circuit : Circuit) : Guard :=
  ⟨"graph input", "", circuit.input⟩

end Circuit

end Dataflow
