import Dataflow.Circuit
import Dataflow.Graph

/-!
# Graphs in place

The store behind a graph under construction.  It is kept by place: the nodes
stand in the order in which they came, a table leads from their keys to their
places, and an edge knows the places it connects besides the keys it was
declared with.  A call changes the store where it stands, in several writes, and
what it has written stays when it fails after that.  `Arena.graph` reads the
store as the graph it stands for.
-/

namespace Dataflow

/-- Something that leads from one place to another. -/
structure Link (α : Type) where
  source : Nat
  target : Nat
  content : α

/-- A graph that is kept by place. -/
structure Arena where
  /-- The declared type of the graph's input. -/
  input : Ty
  /-- The declared type of the graph's output. -/
  output : Ty
  /-- What stands at each place, and under which key. -/
  slots : List (String × Role) := []
  /-- The places by their keys. -/
  places : Table Nat := .empty
  /-- The edges, in order of declaration. -/
  links : List (Link Edge) := []

namespace Arena

/-! ## Reading -/

/-- The keys by their places. -/
def keys (arena : Arena) : List String :=
  arena.slots.map (·.1)

/-- The edges, in order of declaration. -/
def edges (arena : Arena) : List Edge :=
  arena.links.map (·.content)

/-- The node of a slot; the start and the end are none. -/
def nodeOf? : String × Role → Option (String × Node)
  | (key, .work node) => some (key, node)
  | (_, .start) => none
  | (_, .finish) => none

/-- The declared nodes by their keys, in order of declaration. -/
def nodes (arena : Arena) : List (String × Node) :=
  arena.slots.filterMap nodeOf?

/-- The graph that the arena stands for. -/
def graph (arena : Arena) : Graph :=
  ⟨arena.input, arena.output, arena.nodes, arena.edges⟩

/-- The type of what a slot takes. -/
def inputOf (arena : Arena) : Role → Ty
  | .start => arena.input
  | .finish => arena.output
  | .work node => node.input

/-- The type of what a slot makes. -/
def outputOf (arena : Arena) : Role → Ty
  | .start => arena.input
  | .finish => arena.output
  | .work node => node.output

/-! ## Writing -/

/-- Puts something at the next place. -/
def pushSlot (key : String) (role : Role) (arena : Arena) : Arena :=
  { arena with slots := arena.slots ++ [(key, role)] }

/-- Enters the place of a key. -/
def enter (key : String) (place : Nat) (arena : Arena) : Arena :=
  { arena with places := arena.places.insert key place }

/-- Adds an edge between two places. -/
def pushLink (source target : Nat) (edge : Edge) (arena : Arena) : Arena :=
  { arena with links := arena.links ++ [⟨source, target, edge⟩] }

/-- The arena with one more key. -/
def occupy (key : String) (role : Role) (arena : Arena) : Arena :=
  (arena.pushSlot key role).enter key arena.slots.length

/-- The arena of a graph to which nothing has been added. -/
def new (input output : Ty) : Arena :=
  (occupy startKey .start { input, output }).occupy endKey .finish

/-! ## Calls -/

/-- A call on an arena.  A call that fails leaves the arena as it is then. -/
abbrev Call (α : Type) := EStateM Error Arena α

/-- Adds a node under a key of its own. -/
def addNode (key : String) (node : Node) : Call Unit := do
  let arena ← get
  if key = "" then
    throw (.structural .emptyKey)
  else if (arena.places.find? key).isSome then
    throw (.structural (.nodeExists key))
  else
    let place := arena.slots.length
    modify (pushSlot key (.work node))
    modify (enter key place)

/-- Looks up the place of a key. -/
def placeOf (key : String) : Call Nat := do
  let arena ← get
  match arena.places.find? key with
  | some place => return place
  | none => throw (.structural (.nodeMissing key))

/-- Whether there is an edge from one place to another. -/
def hasLink (arena : Arena) (source target : Nat) : Bool :=
  arena.links.any fun link => link.source = source && link.target = target

/-- Adds an edge between two places that have none. -/
def insertEdge (edge : Edge) : Call Unit := do
  if edge.source = endKey then
    throw (.structural .leavesEnd)
  else if edge.target = startKey then
    throw (.structural .entersStart)
  else
    let source ← placeOf edge.source
    let target ← placeOf edge.target
    let arena ← get
    if arena.hasLink source target then
      throw (.structural (.edgeExists edge.source edge.target))
    else
      modify (pushLink source target edge)

/-- Connects two nodes by a plain edge. -/
def connect (source target : String) : Call Unit :=
  insertEdge { source, target }

/-- The first text that is followed by itself. -/
def adjacent? : List String → Option String
  | a :: b :: rest => if a = b then some a else adjacent? (b :: rest)
  | _ => none

/-- Connects two nodes by an edge with mappings to different targets.  The
mappings are bound to the source before anything is checked, and targets that
are the same stand side by side when they are sorted. -/
def connectMapped (source target : String) (mappings : List Mapping) : Call Unit :=
  let edge := Edge.mapped source target mappings
  if edge.isPlain then
    throw (.structural (.edgeWithoutMappings source target))
  else
    match adjacent? (edge.targets.mergeSort fun a b => decide (a ≤ b)) with
    | some field => throw (.structural (.targetRepeated source target field))
    | none => insertEdge edge

end Arena

end Dataflow
