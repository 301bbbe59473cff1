import Dataflow.Circuit

/-!
# Running a circuit on a value

The stations run once each, in execution order.  The input of a station is
assembled from what its feeding wires make of the outputs of its predecessors,
in order of declaration.
-/

namespace Dataflow.Circuit

/-- What a feeding wire contributes, given the outputs so far. -/
def contribution (outputs : Table Value) (wire : Wire) : Except Error Fields :=
  match outputs.find? wire.source with
  | none => .error (.internal (.outputMissing wire.target))
  | some output => wire.apply output

/-- The input of a station, given the outputs so far. -/
def stationInput (circuit : Circuit) (outputs : Table Value) (station : Station) :
    Except Error Value := do
  let contributions ← (circuit.feeding station.key).mapM (contribution outputs)
  station.assembler.assemble (gather contributions)

/-- Runs one station and records its output. -/
def runStation (circuit : Circuit) (outputs : Table Value) (station : Station) :
    Except Error (Table Value) :=
  match station.role with
  | .start => .ok outputs
  | .finish => do
    let input ← circuit.stationInput outputs station
    return outputs.insert station.key input
  | .work node => do
    let input ← circuit.stationInput outputs station
    let output ← node.run input
    return outputs.insert station.key output

/-- The outputs of all stations for an input that passed the guard. -/
def runStations (circuit : Circuit) (input : Value) : Except Error (Table Value) :=
  circuit.stations.foldlM circuit.runStation (Table.empty.insert startKey input)

/-- Runs the circuit on one value. -/
def invoke (circuit : Circuit) (input : Value) : Except Error Value := do
  let input ← circuit.inputGuard.check input
  let outputs ← circuit.runStations input
  match outputs.find? endKey with
  | some output => return output
  | none => throw (.internal .endNotReached)

end Dataflow.Circuit
