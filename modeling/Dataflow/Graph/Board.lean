import Dataflow.Graph.Arena
import Dataflow.Graph.Compile

/-!
# Compiling in place

An arena is compiled in passes.  The execution order, the checks of the nodes,
the guards of the edges and the assemblers of the inputs are found one after the
other, the last two as lists by edge and by place.  Then the slots and the edges
are taken out of the arena, and each is paired with what stands at the same
position of its list.  Nothing but the position tells what belongs together.
-/

namespace Dataflow

/-- What an edge does at run time, apart from where it leads. -/
structure Body where
  /-- The mappings that are applied to each output. -/
  mappings : List Mapping
  /-- The guards that are checked at run time, if there are any. -/
  plan : Option GuardPlan

/-- A graph ready to run that is kept by place. -/
structure Board where
  /-- The declared type of the graph's input. -/
  input : Ty
  /-- The declared type of the graph's output. -/
  output : Ty
  /-- The stations by their places. -/
  stations : List Station
  /-- The edges, in order of declaration. -/
  links : List (Link Body)
  /-- The places in execution order. -/
  order : List Nat
  options : CompileOptions

namespace Board

/-- The keys by their places. -/
def keys (board : Board) : List String :=
  board.stations.map (·.key)

/-- The places by their keys. -/
def places (board : Board) : Table Nat :=
  .ofList board.keys.zipIdx

/-- The station under a key. -/
def station? (board : Board) (key : String) : Option Station := do
  board.stations[← board.places.find? key]?

/-- The edge from one key to another. -/
def edge? (board : Board) (source target : String) : Option Body := do
  let source ← board.places.find? source
  let target ← board.places.find? target
  let link ← board.links.find? fun link => link.source = source && link.target = target
  return link.content

/-- The edges into a place with their positions, the latest first. -/
def directed (board : Board) (place : Nat) : List (Link Body × Nat) :=
  (board.links.zipIdx.filter fun link => link.1.target = place).reverse

/-- The edges into a place, by position. -/
def incoming (board : Board) (place : Nat) : List (Link Body) :=
  ((board.directed place).mergeSort fun a b => decide (a.2 ≤ b.2)).map (·.1)

/-- An edge with the keys it connects in place of the places. -/
def wire (board : Board) (link : Link Body) : Wire :=
  ⟨board.keys.getD link.source "", board.keys.getD link.target "", link.content.mappings,
    link.content.plan⟩

/-- The circuit that the board stands for. -/
def circuit (board : Board) : Circuit :=
  ⟨board.input, board.output, board.order.filterMap (board.stations[·]?),
    board.links.map board.wire, board.options⟩

end Board

namespace Arena

/-- The type of what the node at a place takes. -/
def inputAt (arena : Arena) (place : Nat) : Ty :=
  (arena.slots[place]?.map fun slot => arena.inputOf slot.2).getD arena.output

/-- The type of what the node at a place makes. -/
def outputAt (arena : Arena) (place : Nat) : Ty :=
  (arena.slots[place]?.map fun slot => arena.outputOf slot.2).getD arena.output

/-- Checks the types along an edge and gives its guards, if there are any. -/
def plan (arena : Arena) (link : Link Edge) : Except Error (Option GuardPlan) :=
  let predecessor := arena.outputAt link.source
  let successor := arena.inputAt link.target
  if link.content.isPlain then do
    let guard ← Mapping.checkWhole link.content.source predecessor successor
    return guard.map GuardPlan.empty.insert
  else
    Mapping.check predecessor successor link.content.mappings

/-- What an edge does at run time. -/
def body (arena : Arena) (link : Link Edge) : Except Error Body := do
  let plan ← arena.plan link
  return ⟨link.content.effectiveMappings, plan⟩

/-- What makes the input of the node at each place. -/
def assemblers (arena : Arena) (merges : MergeRegistry) : List Assembler :=
  (List.range arena.slots.length).map fun place => ⟨arena.inputAt place, merges⟩

/-- Pairs every slot with the assembler, and every edge with the body, at the same position. -/
def pair (arena : Arena) (options : CompileOptions) (order : List String) (bodies : List Body)
    (assemblers : List Assembler) : Board where
  input := arena.input
  output := arena.output
  stations := List.zipWith (fun slot assembler => ⟨slot.1, slot.2, assembler⟩) arena.slots
    assemblers
  links := List.zipWith (fun link body => ⟨link.source, link.target, body⟩) arena.links bodies
  order := order.filterMap arena.places.find?
  options := options

/-- Checks the graph in an arena and makes it ready to run. -/
def compile (arena : Arena) (options : CompileOptions) : Except Error Board := do
  let order ← arena.graph.executionOrder options
  arena.keys.forM (arena.graph.checkNode options)
  let bodies ← arena.links.mapM arena.body
  return arena.pair options order bodies (arena.assemblers options.merges)

end Arena

end Dataflow
