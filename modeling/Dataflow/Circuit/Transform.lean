import Dataflow.Circuit
import Dataflow.Stream

/-!
# Running a circuit on a stream

Every station turns the merged streams of its feeding wires into a stream, chunk
by chunk: a chunk from any wire becomes one input, which holds what that wire
contributes and nothing else.  The stations are put on top of each other in
execution order, and nothing is asked for before the result is.

The stream of a station is fanned out to its outgoing wires.  Copies for wires
that do not feed their target are never polled.
-/

namespace Dataflow

namespace Wire

variable {W : Type} [Ranked W]

/-- What the chunks of a stream contribute through the wire. -/
def feed (wire : Wire) (outputs : Feed W Value) : Feed ((Tap × Tap) × W) Fields :=
  ((outputs.convert (Mapping.extract wire.mappings)).convert wire.guarded).regroup

end Wire

/-- The input that one contribution alone makes. -/
def Assembler.assembleOne (assembler : Assembler) (fields : Fields) : Except Error Value :=
  assembler.assemble (gather [fields])

/-- The streams of the stations so far that no station has taken yet. -/
structure Network where
  World : Type
  [ranked : Ranked World]
  /-- The number of input chunks that were taken. -/
  taken : World → Nat
  world : World
  /-- The stream for each wire, in no particular order. -/
  pending : List (Wire × Feed World Value)

attribute [instance] Network.ranked

namespace Network

/-- Hands the stream of a station to each of its outgoing wires. -/
def distribute {W : Type} [Ranked W] (key : String) (outputs : Feed W Value)
    (wires : List Wire) : List (Wire × Feed (FanOut Value × W) Value) :=
  wires.mapIdx fun index wire => (wire, outputs.copy key wires.length index)

/-- The start of a circuit: the chunks that pass the guard on its input. -/
def ofInput (circuit : Circuit) (chunks : List (Chunk Value)) : Network :=
  let wires := circuit.outgoing startKey
  { World := FanOut Value × Tap × Tape Value
    taken := fun w => w.2.2.taken
    world := (.fresh wires.length, .opened, ⟨chunks, 0⟩)
    pending := distribute startKey (Tape.feed.convert circuit.inputGuard.check) wires }

/-- The stream that waits for a wire. -/
def find (network : Network) (wire : Wire) : Except Error (Feed network.World Value) :=
  match network.pending.find? fun p => p.1.source = wire.source && p.1.target = wire.target with
  | some p => .ok p.2
  | none => .error (.internal (.streamMissing wire.target))

/-- What the lanes of a station are: the contributions of its wires. -/
abbrev LaneFeed (W : Type) [Ranked W] := Feed ((Tap × Tap) × W) Fields

/-- The lanes of a station, one for each feeding wire. -/
def lanes (network : Network) (wires : List Wire) :
    Except Error (Lanes (LaneFeed network.World) (Tap × Tap)) := do
  let feeds ← wires.mapM fun wire => do
    let outputs ← network.find wire
    return wire.feed outputs
  return ⟨feeds.map fun feed => (feed, (.opened, .opened))⟩

/-- The world of a network with a station's merged lanes on top. -/
abbrev InputWorld (W : Type) [Ranked W] := Tap × Lanes (LaneFeed W) (Tap × Tap) × W

/-- The inputs of a station. -/
def inputs {W : Type} [Ranked W] (station : Station) : Feed (InputWorld W) Value :=
  (Feed.select station.key id).convert station.assembler.assembleOne

/-- The network with one more station, which has taken its streams. -/
def attach (network : Network) (circuit : Circuit) (station : Station) (node : Node)
    (lanes : Lanes (LaneFeed network.World) (Tap × Tap)) : Network :=
  let wires := circuit.outgoing station.key
  let outputs := (inputs (W := network.World) station).transduce station.key node.transducer
  let kept := network.pending.filter (·.1.target ≠ station.key)
  { World := FanOut Value × Reacting Value Value × InputWorld network.World
    taken := fun w => network.taken w.2.2.2.2
    world := (.fresh wires.length, node.transducer.begin, .opened, lanes, network.world)
    pending := kept.map (fun p => (p.1, p.2.lift.lift.lift.lift)) ++
      distribute station.key outputs wires }

/-- The stream that leaves a circuit. -/
def result (network : Network) (station : Station)
    (lanes : Lanes (LaneFeed network.World) (Tap × Tap)) : Stream Value :=
  { World := InputWorld network.World
    feed := inputs station
    taken := fun w => network.taken w.2.2
    world := (.opened, lanes, network.world) }

/-- Puts stations on top of a network until the end is reached. -/
def complete (circuit : Circuit) : List Station → Network → Except Error (Stream Value)
  | [], _ => .error (.internal .endNotReached)
  | station :: rest, network =>
    match station.role with
    | .start => complete circuit rest network
    | .finish =>
      match network.lanes (circuit.feeding station.key) with
      | .error e => .error e
      | .ok lanes => .ok (network.result station lanes)
    | .work node =>
      match network.lanes (circuit.feeding station.key) with
      | .error e => .error e
      | .ok lanes => complete circuit rest (network.attach circuit station node lanes)

end Network

/-- Runs the circuit on a stream of inputs, given by its chunks. -/
def Circuit.transform (circuit : Circuit) (chunks : List (Chunk Value)) :
    Except Error (Stream Value) :=
  Network.complete circuit circuit.stations (.ofInput circuit chunks)

end Dataflow
