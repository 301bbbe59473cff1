import Dataflow.Mapping
import Dataflow.Node

/-!
# Graphs

A graph is declared node by node and edge by edge.  The start and the end are
always there and need no declaration.  A plain edge passes a whole output on as
a whole input; an edge with mappings passes parts.  A refused declaration gives
no graph back, so the graph stays as it was.
-/

namespace Dataflow

/-! ## Edges -/

/-- A declared connection between two nodes. -/
structure Edge where
  /-- The key of the node whose output is passed on. -/
  source : String
  /-- The key of the node whose input is filled. -/
  target : String
  /-- The mappings, none for a plain edge. -/
  mappings : List Mapping := []
deriving DecidableEq

namespace Edge

/-- An edge with mappings, all of which read the output of its source. -/
def mapped (source target : String) (mappings : List Mapping) : Edge :=
  ⟨source, target, mappings.map fun m => { m with node := source }⟩

/-- Whether the edge passes the whole output on. -/
def isPlain (edge : Edge) : Bool := edge.mappings.isEmpty

/-- The mappings that the edge stands for: a plain edge stands for one between
the whole output and the whole input. -/
def effectiveMappings (edge : Edge) : List Mapping :=
  if edge.isPlain then [{ node := edge.source }] else edge.mappings

/-- The parts of the input that the edge fills. -/
def targets (edge : Edge) : List String :=
  edge.effectiveMappings.map (·.target)

end Edge

/-! ## Graphs -/

/-- A graph under construction. -/
structure Graph where
  /-- The declared type of the graph's input. -/
  input : Ty
  /-- The declared type of the graph's output. -/
  output : Ty
  /-- The nodes by their keys, in order of declaration. -/
  nodes : List (String × Node) := []
  /-- The edges, in order of declaration. -/
  edges : List Edge := []

namespace Graph

/-- The keys of all nodes: the start, the end, and the declared ones. -/
def keys (graph : Graph) : List String :=
  startKey :: endKey :: graph.nodes.map (·.1)

/-- Whether there is a node under a key. -/
def contains (graph : Graph) (key : String) : Bool :=
  graph.keys.contains key

/-- The declared node under a key. -/
def node? (graph : Graph) (key : String) : Option Node :=
  (graph.nodes.find? (·.1 = key)).map (·.2)

/-- The type of what a node takes; the start takes the graph's input. -/
def inputType (graph : Graph) (key : String) : Ty :=
  if key = startKey then graph.input
  else ((graph.node? key).map (·.input)).getD graph.output

/-- The type of what a node makes; the start makes the graph's input. -/
def outputType (graph : Graph) (key : String) : Ty :=
  if key = startKey then graph.input
  else ((graph.node? key).map (·.output)).getD graph.output

/-- The edges into a node, in order of declaration. -/
def incoming (graph : Graph) (key : String) : List Edge :=
  graph.edges.filter (·.target = key)

/-- The edges out of a node, in order of declaration. -/
def outgoing (graph : Graph) (key : String) : List Edge :=
  graph.edges.filter (·.source = key)

/-- Whether there is an edge from one node to another. -/
def hasEdge (graph : Graph) (source target : String) : Bool :=
  graph.edges.any fun e => e.source = source && e.target = target

/-- Adds a node under a key of its own. -/
def addNode (graph : Graph) (key : String) (node : Node) : Except Error Graph :=
  if key = "" then
    .error (.structural .emptyKey)
  else if graph.contains key then
    .error (.structural (.nodeExists key))
  else
    .ok { graph with nodes := graph.nodes ++ [(key, node)] }

/-- Adds an edge between two nodes that have none. -/
def insertEdge (graph : Graph) (edge : Edge) : Except Error Graph :=
  if edge.source = endKey then
    .error (.structural .leavesEnd)
  else if edge.target = startKey then
    .error (.structural .entersStart)
  else if !graph.contains edge.source then
    .error (.structural (.nodeMissing edge.source))
  else if !graph.contains edge.target then
    .error (.structural (.nodeMissing edge.target))
  else if graph.hasEdge edge.source edge.target then
    .error (.structural (.edgeExists edge.source edge.target))
  else
    .ok { graph with edges := graph.edges ++ [edge] }

/-- Connects two nodes by a plain edge. -/
def connect (graph : Graph) (source target : String) : Except Error Graph :=
  graph.insertEdge { source, target }

/-- The smallest text that occurs more than once. -/
def repeated? (texts : List String) : Option String :=
  (texts.mergeSort fun a b => decide (a ≤ b)).find? fun t => decide (1 < texts.count t)

/-- Connects two nodes by an edge with mappings to different targets. -/
def connectMapped (graph : Graph) (source target : String) (mappings : List Mapping) :
    Except Error Graph :=
  if mappings.isEmpty then
    .error (.structural (.edgeWithoutMappings source target))
  else
    match repeated? (mappings.map (·.target)) with
    | some field => .error (.structural (.targetRepeated source target field))
    | none => graph.insertEdge (.mapped source target mappings)

end Graph

end Dataflow
